/-!
# Comparing words without case

Literals and units compare in ASCII case only. Command words compare in full Unicode lower case, but
only with words of ASCII letters; for that the lower case of a character matters only where it is an
ASCII letter, which beyond ASCII happens once: the Kelvin sign has the lower case `k`.
-/

namespace Breadboard.Text

/-- ASCII capitals to small letters; every other character stays. -/
def lowerAscii (text : List Char) : List Char :=
  text.map Char.toLower

/-- The lower case of a character, as far as it can be an ASCII letter. -/
def lowerLetter (c : Char) : Char :=
  if c == '\u212A' then 'k' else c.toLower

/-- The form in which a command word is compared with the known words. -/
def commandForm (word : String) : String :=
  String.ofList (word.toList.map lowerLetter)

end Breadboard.Text
