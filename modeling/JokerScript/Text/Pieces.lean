/-!
# Pieces of Texts

Some authored texts hold several values: a lead tells what they are, and bars stand
between them.

## Main definitions

* `afterLead?` — what follows a lead.
* `splitAt` — the pieces between separators.
-/

namespace JokerScript

/-- The characters after a leading `lead`, if the text begins with it. -/
def afterLead? : List Char → List Char → Option (List Char)
  | [], cs => some cs
  | _ :: _, [] => none
  | l :: lead, c :: cs => if l = c then afterLead? lead cs else none

/-- The pieces of a text between the separators `sep`; there is always a first piece. -/
def splitAt (sep : Char) : List Char → List Char × List (List Char)
  | [] => ([], [])
  | c :: cs =>
    let (first, others) := splitAt sep cs
    if c = sep then ([], first :: others) else (c :: first, others)

end JokerScript
