import OctetPattern.Pattern

/-!
# Alternation

What a list of branches amounts to. Two or more branches that each
match one position are tested together: they become the members of one
set, which stands after the other branches. Members keep their own
structure.

* `Branches.plain` leaves every branch where it was written.
* `Branches.merged` moves the single-position branches into one set.
-/

namespace OctetPattern.Branches

/-- A single branch stands for itself; no branches stand for nothing. -/
def plain : List Pattern → Option Pattern
  | [] => none
  | [branch] => some branch
  | branches => some (.alternatives branches)

/-- The branches that match one position, and the others, each in order. -/
def split (branches : List Pattern) : List Pattern × List Pattern :=
  branches.partition Pattern.matchesSinglePosition

/-- The branches with the single-position ones collected, if there are
two or more of them. -/
def collected (branches : List Pattern) : List Pattern :=
  let (singles, others) := split branches
  if singles.length < 2 then branches else others ++ [.set singles false]

/-- What the branches amount to, with the single-position ones collected. -/
def merged (branches : List Pattern) : Option Pattern :=
  plain (collected branches)

theorem split_eq (branches : List Pattern) :
    split branches = (branches.filter Pattern.matchesSinglePosition,
      branches.filter fun p => !p.matchesSinglePosition) := by
  simp [split, List.partition_eq_filter_filter, Function.comp_def]

end OctetPattern.Branches
