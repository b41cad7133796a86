import Breadboard.Form.Circuits
import Breadboard.Proofs.Circuit.Editing
import Breadboard.Net.Cache
import Breadboard.Engine.Settle

/-!
# Workshops

A workshop holds any number of circuits, the next fresh revision and one cache of netlists. Circuits
come into it new, as copies, or read from texts; they are edited, driven and evaluated, and netlists
are asked for and dropped, in any order. What stands inside a chip is one of the circuits of the
workshop, or a part of one, at the time the chip was added.
-/

namespace Breadboard

/-- The place of a circuit in a workshop, and the chips that lead into it from there. -/
structure Address where
  place : Nat
  path : List NodeId

/-- Circuits in the making, which share a source of revisions and a cache. -/
structure Workshop where
  circuits : List Circuit
  /-- The next fresh revision. -/
  fresh : Revision
  cache : NetlistCache

/-- What is done in a workshop. -/
inductive Action where
  /-- A new circuit. -/
  | create
  | copy (source : Address)
  /-- A circuit from the text of a file. -/
  | read (text : String)
  | edit (target : Address) (edit : Edit Address)
  | drive (target : Address) (id : NodeId) (signal : Signal)
  /-- A change of an oscillator. -/
  | adjust (target : Address) (id : NodeId) (change : Oscillator → Oscillator)
  | evaluate (target : Address) (limits : Limits) (context : EvalContext)
  /-- Asking for a netlist. -/
  | request (target : Address)
  | sweep
  | clear

namespace Workshop

/-- A workshop without circuits. -/
def opened : Workshop :=
  ⟨[], 1, .empty⟩

/-- The circuit at an address. -/
def circuit? (workshop : Workshop) (address : Address) : Option Circuit :=
  (workshop.circuits[address.place]?).bind fun circuit => circuit.inside? address.path

/-- Changes the circuit at an address. -/
def modify (workshop : Workshop) (address : Address) (change : Circuit → Circuit) : Workshop :=
  { workshop with
    circuits := workshop.circuits.modify address.place fun circuit =>
      circuit.modifyInside change address.path }

/-- The edit with the circuit of the workshop that is to stand inside an added chip, if it is there. -/
def fitted? (workshop : Workshop) (edit : Edit Address) : Option (Edit Circuit) :=
  match edit with
  | .add ⟨_, _, .chip body, _, _⟩ =>
    (workshop.circuit? body.circuit).map fun circuit => edit.map fun _ => circuit
  | _ => some (edit.map fun _ => default)

/-- The workshop after an action. An action at an address where there is no circuit does nothing. A
fresh revision is given to every edit, also to one that finds nothing to change. -/
def perform (workshop : Workshop) : Action → Workshop
  | .create =>
    { workshop with
      circuits := workshop.circuits ++ [.empty workshop.fresh]
      fresh := workshop.fresh + 1 }
  | .copy source =>
    { workshop with circuits := workshop.circuits ++ (workshop.circuit? source).toList }
  | .read text =>
    match Circuit.ofText? text workshop.fresh with
    | some (circuit, fresh) => { workshop with circuits := workshop.circuits ++ [circuit], fresh }
    | none => workshop
  | .edit target edit =>
    match workshop.fitted? edit with
    | some edit =>
      { workshop.modify target fun circuit => edit.apply workshop.fresh circuit with
        fresh := workshop.fresh + 1 }
    | none => workshop
  | .drive target id signal =>
    workshop.modify target fun circuit =>
      circuit.modifyNode id fun node => (node.drive? signal).getD node
  | .adjust target id change =>
    workshop.modify target fun circuit => circuit.modifyNode id (Node.adjusted change)
  | .evaluate target limits context =>
    match workshop.circuit? target with
    | some circuit =>
      let (reached, cache, _) := circuit.evaluate limits context workshop.cache
      { workshop.modify target fun _ => reached with cache }
    | none => workshop
  | .request target =>
    match workshop.circuit? target with
    | some circuit => { workshop with cache := (workshop.cache.getOrBuild circuit).2 }
    | none => workshop
  | .sweep => { workshop with cache := workshop.cache.sweep }
  | .clear => { workshop with cache := workshop.cache.clear }

/-- The workshop after some actions, one after the other. -/
def run (workshop : Workshop) (actions : List Action) : Workshop :=
  actions.foldl perform workshop

end Workshop

end Breadboard
