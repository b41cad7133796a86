import Breadboard.Console.Dialogue
import Breadboard.Proofs.Console.Confinement

/-!
# Sessions and dialogues

No command changes what a circuit is made of, so a name that is watched goes on to name a node, in every
session that commands lead to. A dialogue is the commands on its lines, one after the other, up to the first
that ends it. Lines that are no commands and commands that fail are passed over, but they are remembered.
-/

namespace Breadboard

section Reach

/-- The sessions that commands lead to, from a session on a circuit before its first tick. -/
inductive Session.Reached (circuit : Circuit) (limits : Limits) : Session → Prop
  | new : Reached circuit limits (.new circuit limits)
  | performed {session : Session} (reached : Reached circuit limits session) (command : Command) :
      Reached circuit limits (session.perform command).2

/-- Every watched name names a node, and none is watched twice. -/
structure Session.WatchesNodes (session : Session) : Prop where
  nodup : session.watches.Nodup
  resolves : ∀ name ∈ session.watches, ∃ id, session.circuit.resolve name = .ok id

namespace Session

variable {session after : Session} {command : Command} {reply : Reply} {circuit : Circuit} {limits : Limits}

/-- What commands do leaves every watched name naming a node, and none watched twice. -/
theorem Does.watchesNodes (does : session.Does command after reply) (watches : session.WatchesNodes) :
    after.WatchesNodes := by
  have same := Circuit.resolve_of_blueprint_eq does.blueprint_eq
  have stillResolves : ∀ name ∈ session.watches, ∃ id, after.circuit.resolve name = .ok id := by
    intro name member
    rw [same]
    exact watches.resolves name member
  cases does with
  | ticked => exact ⟨watches.nodup, stillResolves⟩
  | restated => exact ⟨watches.nodup, stillResolves⟩
  | watched resolves =>
    next name id shown =>
    by_cases already : session.watches.contains name = true
    · simp only [if_pos already]
      exact watches
    · simp only [if_neg already]
      have new : name ∉ session.watches := fun member => already (List.contains_iff_mem.mpr member)
      refine ⟨?_, ?_⟩
      · exact List.nodup_append.mpr ⟨watches.nodup, List.nodup_singleton name, by
          intro watched member other isName alike
          obtain rfl := List.mem_singleton.mp isName
          exact new (alike ▸ member)⟩
      · intro watched member
        rcases List.mem_append.mp member with before | last
        · exact watches.resolves watched before
        · obtain rfl := List.mem_singleton.mp last
          exact ⟨id, resolves⟩
  | unwatched name =>
    refine ⟨watches.nodup.filter _, fun name member => ?_⟩
    exact watches.resolves name (List.mem_of_mem_filter member)

/-- In every session that commands lead to, the watched names name nodes, and none is watched twice.

Proof: by induction on the commands. -/
theorem Reached.watchesNodes (reached : Reached circuit limits session) : session.WatchesNodes := by
  induction reached with
  | new => exact ⟨List.nodup_nil, nofun⟩
  | performed reached command inductionHypothesis =>
    rename_i before
    rcases before.perform_cases command with ⟨after, reply, performs, does⟩ | ⟨_, error, refused⟩
    · rw [performs]
      exact does.watchesNodes inductionHypothesis
    · rw [refused]
      exact inductionHypothesis

end Session

end Reach

namespace Dialogue

/-- The line ends a dialogue. -/
def ends (line : String) : Bool :=
  match Command.ofLine line with
  | .ok .quit => true
  | _ => false

/-- The lines of an input that are not blank, without the blanks at their ends. -/
def written (input : String) : List String :=
  ((lines input).map trimmed).filter (· ≠ "")

/-- Of some lines those up to the first one that ends a dialogue, and this one too. -/
def heard (lines : List String) : List String :=
  lines.takeWhile (!ends ·) ++ (lines.dropWhile (!ends ·)).take 1

/-- The session after a command if it is carried out, and as it was if it is not. -/
def follow (session : Session) (command : Command) : Session :=
  match session.perform command with
  | (.ok _, after) => after
  | (.error _, _) => session

/-- A line is heard, and those behind it are if it does not end the dialogue. -/
theorem heard_cons (line : String) (rest : List String) :
    heard (line :: rest) = line :: if ends line then [] else heard rest := by
  cases isLast : ends line with
  | true => simp [heard, isLast]
  | false => simp [heard, isLast]

/-- A command ends a dialogue if it is the one to quit. -/
theorem ends_of_ok {line : String} {command : Command} (reads : Command.ofLine line = .ok command) :
    ends line = decide (command = .quit) := by
  rw [ends, reads]
  cases command <;> rfl

/-- A line that is answered is followed, if it is a command, and it ends the dialogue if it says so. -/
theorem answer_eq (session : Session) (line : String) :
    (answer session line).1 = (Command.ofLine line).toOption.toList.foldl follow session ∧
      (answer session line).2.2 = ends line := by
  cases reads : Command.ofLine line with
  | error error =>
    rw [answer, ends, reads]
    exact ⟨rfl, rfl⟩
  | ok command =>
    have followed : (Except.toOption (.ok command : Except CommandError Command)).toList.foldl follow session =
        follow session command := rfl
    rw [answer, ends_of_ok reads, reads, followed, follow]
    rcases session.perform_cases command with ⟨after, reply, performs, does⟩ | ⟨_, error, refused⟩
    · have quits := does.quit_iff
      simp only [performs]
      cases reply with
      | quit => exact ⟨rfl, (decide_eq_true (quits.mp rfl)).symm⟩
      | shown text =>
        have goesOn : command ≠ .quit := fun isQuit => nomatch quits.mpr isQuit
        exact ⟨rfl, (decide_eq_false goesOn).symm⟩
    · have goesOn : command ≠ .quit := by
        rintro rfl
        have carriedOut : session.perform .quit = (.ok .quit, session) := rfl
        exact nomatch carriedOut.symm.trans refused
      simp only [refused, true_and]
      exact (decide_eq_false goesOn).symm

/-- A line that is not blank is answered and remembered, and the lines behind it are if it does not end the
dialogue. -/
theorem answerAll_of_written (session : Session) {line : String} (rest : List String)
    (solid : trimmed line ≠ "") :
    (answerAll session (line :: rest)).history = trimmed line ::
        (if ends (trimmed line) then [] else
          (answerAll (answer session (trimmed line)).1 rest).history) ∧
      (answerAll session (line :: rest)).session =
        if ends (trimmed line) then (answer session (trimmed line)).1
        else (answerAll (answer session (trimmed line)).1 rest).session := by
  rw [← (answer_eq session (trimmed line)).2, answerAll, if_neg solid]
  rcases answer session (trimmed line) with ⟨after, shown, _ | _⟩
  · exact ⟨rfl, rfl⟩
  · exact ⟨rfl, rfl⟩

/-- A line is followed before the lines behind it. -/
theorem foldl_follow_cons (session : Session) (line : String) (rest : List String) :
    ((line :: rest).filterMap fun line => (Command.ofLine line).toOption).foldl follow session =
      (rest.filterMap fun line => (Command.ofLine line).toOption).foldl follow (answer session line).1 := by
  rw [(answer_eq session line).1, List.filterMap_cons]
  cases (Command.ofLine line).toOption with
  | none => rfl
  | some command => rfl

/-- What a dialogue does to a session and to its history.

Proof: by induction on the lines. -/
theorem answerAll_eq (session : Session) (lines : List String) :
    (answerAll session lines).history = heard ((lines.map trimmed).filter (· ≠ "")) ∧
      (answerAll session lines).session =
        ((heard ((lines.map trimmed).filter (· ≠ ""))).filterMap fun line =>
          (Command.ofLine line).toOption).foldl follow session := by
  induction lines generalizing session with
  | nil => exact ⟨rfl, rfl⟩
  | cons line rest inductionHypothesis =>
    by_cases blank : trimmed line = ""
    · rw [answerAll, if_pos blank, List.map_cons, List.filter_cons_of_neg (by simp [blank])]
      exact inductionHypothesis session
    · obtain ⟨history, left⟩ := answerAll_of_written session rest blank
      obtain ⟨later, leftLater⟩ := inductionHypothesis (answer session (trimmed line)).1
      rw [history, left, List.map_cons, List.filter_cons_of_pos (by simp [blank]), heard_cons,
        foldl_follow_cons]
      cases ends (trimmed line) with
      | true => exact ⟨rfl, rfl⟩
      | false => exact ⟨congrArg (trimmed line :: ·) later, leftLater⟩

end Dialogue

/-- Commands are atomic and confined, whatever the session. In every session that commands lead to, the watched
names name nodes, and none is watched twice. A dialogue carries out, one after the other, the commands on its
lines up to the first `quit`, passing over the lines that are no commands and the commands that fail, and
keeps the lines that are not blank up to and including that `quit`. -/
theorem commands_confined :
    (∀ (session : Session) (command : Command), session.Confines command) ∧
    (∀ (circuit : Circuit) (limits : Limits) (session : Session),
      Session.Reached circuit limits session → session.WatchesNodes) ∧
    (∀ (session : Session) (input : String),
      (Dialogue.run session input).session =
          ((Dialogue.heard (Dialogue.written input)).filterMap fun line =>
            (Command.ofLine line).toOption).foldl Dialogue.follow session ∧
        (Dialogue.run session input).history = Dialogue.heard (Dialogue.written input)) := by
  refine ⟨Session.confines, fun _ _ _ reached => reached.watchesNodes, fun session input => ?_⟩
  obtain ⟨history, left⟩ := Dialogue.answerAll_eq session (Dialogue.lines input)
  exact ⟨left, history⟩

end Breadboard
