/-
# Nested exchanges

Work that is opened and closed, such as requests that are asked and answered while others are still
waiting. A record of it is nested when whatever is closed is what was opened last; replaying such a
record leaves the work that is still open, innermost first.
-/
import Mathlib.Data.List.Perm.Basic

namespace Nesting

variable {α : Type*}

/-- An activity begins, or ends. -/
inductive Mark (α : Type*) where
  | opened (a : α)
  | closed (a : α)
  deriving DecidableEq, Repr

/-- The activity that begins here. -/
def Mark.opened? : Mark α → Option α
  | .opened a => some a
  | .closed _ => none

/-- The activity that ends here. -/
def Mark.closed? : Mark α → Option α
  | .opened _ => none
  | .closed a => some a

/-- Of marks that are all ends, the ends are all. -/
theorem closed_map_closed (as : List α) : (as.map Mark.closed).filterMap Mark.closed? = as := by
  rw [List.filterMap_map]
  exact List.filterMap_some

/-- Among beginnings there is no end. -/
theorem closed_map_opened (as : List α) : (as.map Mark.opened).filterMap Mark.closed? = [] := by
  rw [List.filterMap_map]
  exact List.filterMap_eq_nil_iff.mpr fun _ _ => rfl

/-- What is open after `marks`, or `none` if something is closed that is not innermost. -/
def replay [DecidableEq α] : List α → List (Mark α) → Option (List α)
  | open_, [] => some open_
  | open_, .opened a :: marks => replay (a :: open_) marks
  | [], .closed _ :: _ => none
  | b :: open_, .closed a :: marks => if a = b then replay open_ marks else none

section Replay

variable [DecidableEq α] {open_ open' : List α} {marks : List (Mark α)}

/-- A log is replayed piece by piece. -/
theorem replay_append (open_ : List α) (marks more : List (Mark α)) :
    replay open_ (marks ++ more) = (replay open_ marks).bind fun open' => replay open' more := by
  fun_induction replay open_ marks with
  | case1 open_ => rfl
  | case2 open_ a marks ih => exact ih
  | case3 a marks => rfl
  | case4 open_ b marks ih =>
      rw [List.cons_append, replay, if_pos rfl]
      exact ih
  | case5 b open_ a marks hne =>
      rw [List.cons_append, replay, if_neg hne]
      rfl

/-- In a nested record everything opened has been closed once or is still open. -/
theorem replay_perm (h : replay open_ marks = some open') :
    (marks.filterMap Mark.opened? ++ open_).Perm (marks.filterMap Mark.closed? ++ open') := by
  fun_induction replay open_ marks with
  | case1 open_ =>
      obtain rfl := Option.some.inj h
      exact List.Perm.refl _
  | case2 open_ a marks ih =>
      have hmove : (a :: (marks.filterMap Mark.opened? ++ open_)).Perm
          (marks.filterMap Mark.opened? ++ a :: open_) := List.perm_middle.symm
      exact hmove.trans (ih h)
  | case3 a marks => cases h
  | case4 open_ b marks ih =>
      have hmove : (marks.filterMap Mark.opened? ++ b :: open_).Perm
          (b :: (marks.filterMap Mark.opened? ++ open_)) := List.perm_middle
      exact hmove.trans ((ih h).cons b)
  | case5 b open_ a marks hne => cases h

end Replay

end Nesting
