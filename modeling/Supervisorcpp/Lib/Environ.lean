/-
# The environment of a process

An environment is the list of its definitions, in the order of the block a program is given.
`getenv` finds the first definition of a name; `setenv` puts a new value in its place, or adds a
definition at the end, and refuses a name that is empty or has an equals sign. A run of `setenv`
calls lays the assignments over what was there, the last one for a name on top.
-/
import Mathlib.Data.List.Basic

namespace Environ

/-- Names and values are lists of characters. -/
abbrev Text (α : Type*) := List α

/-- An environment: definitions in the order in which they stand in the block. -/
abbrev Block (α : Type*) := List (Text α × Text α)

variable {α : Type*} [DecidableEq α]

/-- The names `setenv` takes, for the equals sign `eq`. -/
def Assignable (eq : α) (name : Text α) : Prop := name ≠ [] ∧ eq ∉ name

instance (eq : α) (name : Text α) : Decidable (Assignable eq name) :=
  inferInstanceAs (Decidable (_ ∧ _))

/-- The value of a variable: the first definition of its name counts. -/
def getenv (env : Block α) (name : Text α) : Option (Text α) :=
  (env.find? fun d => d.1 = name).map Prod.snd

/-- The first definition of a name changes, or one is added. -/
def define (name value : Text α) : Block α → Block α
  | [] => [(name, value)]
  | d :: env => if d.1 = name then (name, value) :: env else d :: define name value env

/-- `setenv(name, value, 1)`. -/
def setenv (eq : α) (env : Block α) (name value : Text α) : Block α :=
  if Assignable eq name then define name value env else env

/-- One `setenv` for each assignment. -/
def setAll (eq : α) (env : Block α) (assignments : Block α) : Block α :=
  assignments.foldl (fun env a => setenv eq env a.1 a.2) env

/-- The value a run of assignments gives a name: that of the last one it is taken from. -/
def assigned (eq : α) (assignments : Block α) (name : Text α) : Option (Text α) :=
  if Assignable eq name then getenv assignments.reverse name else none

variable {eq : α} {env : Block α} {name name' value : Text α}

@[simp] theorem getenv_nil : getenv ([] : Block α) name = none := rfl

/-- The first definition of a name counts. -/
theorem getenv_cons (d : Text α × Text α) (env : Block α) :
    getenv (d :: env) name = if d.1 = name then some d.2 else getenv env name := by
  by_cases h : d.1 = name
  · simp [getenv, h]
  · simp [getenv, h]

/-- What the first block does not define is looked up in the second. -/
theorem getenv_append (env env' : Block α) :
    getenv (env ++ env') name = (getenv env name).or (getenv env' name) := by
  induction env with
  | nil => rfl
  | cons d env ih =>
      rw [List.cons_append, getenv_cons, getenv_cons, ih]
      by_cases h : d.1 = name
      · rw [if_pos h, if_pos h]
        rfl
      · rw [if_neg h, if_neg h]

/-- A name that is defined once has that value. -/
theorem getenv_of_mem (hnodup : (env.map Prod.fst).Nodup) (h : (name, value) ∈ env) :
    getenv env name = some value := by
  induction env with
  | nil => cases h
  | cons d env ih =>
      rw [List.map_cons, List.nodup_cons] at hnodup
      rw [getenv_cons]
      rcases List.mem_cons.mp h with rfl | h
      · rw [if_pos rfl]
      · rw [if_neg, ih hnodup.2 h]
        rintro rfl
        exact hnodup.1 (List.mem_map.mpr ⟨_, h, rfl⟩)

/-- A definition gives its variable the value, and no other variable another one. -/
theorem getenv_define (env : Block α) :
    getenv (define name value env) name' = if name = name' then some value else getenv env name' := by
  induction env with
  | nil => rw [define, getenv_cons]
  | cons d env ih =>
      rw [define]
      split
      · next hd => rw [getenv_cons, getenv_cons, hd]; split <;> rfl
      · next hd =>
          rw [getenv_cons, getenv_cons, ih]
          by_cases hd' : d.1 = name'
          · have hne : name ≠ name' := fun heq => hd (hd'.trans heq.symm)
            rw [if_pos hd', if_neg hne, if_pos hd']
          · rw [if_neg hd', if_neg hd']

/-- So does `setenv`, for a name that it accepts. -/
theorem getenv_setenv (env : Block α) : getenv (setenv eq env name value) name' =
    if Assignable eq name ∧ name = name' then some value else getenv env name' := by
  unfold setenv
  split
  · next h =>
      rw [getenv_define]
      simp only [h, true_and]
  · next h => rw [if_neg (fun hand => h hand.1)]

/-- **Overlay.**  After a run of `setenv` calls a name has the value of the last assignment to it, and
where there is none the value it had. -/
theorem getenv_setAll (env assignments : Block α) :
    getenv (setAll eq env assignments) name = (assigned eq assignments name).or (getenv env name) := by
  induction assignments generalizing env with
  | nil => simp [setAll, assigned]
  | cons a assignments ih =>
      rw [setAll, List.foldl_cons, ← setAll, ih, getenv_setenv]
      unfold assigned
      rw [List.reverse_cons, getenv_append, getenv_cons, getenv_nil]
      by_cases hname : Assignable eq name
      · rw [if_pos hname, if_pos hname, Option.or_assoc]
        congr 1
        by_cases ha : a.1 = name
        · rw [if_pos ⟨ha ▸ hname, ha⟩, if_pos ha]
          rfl
        · rw [if_neg (fun hand => ha hand.2), if_neg ha]
          rfl
      · rw [if_neg hname, if_neg hname]
        have hno : ¬ (Assignable eq a.1 ∧ a.1 = name) := fun hand => hname (hand.2 ▸ hand.1)
        rw [if_neg hno]

/-- An assignment to a name that no other one assigns to. -/
theorem assigned_of_mem {assignments : Block α} (hname : Assignable eq name)
    (hnodup : (assignments.map Prod.fst).Nodup) (h : (name, value) ∈ assignments) :
    assigned eq assignments name = some value := by
  rw [assigned, if_pos hname]
  apply getenv_of_mem
  · rw [List.map_reverse]
    exact (List.reverse_perm _).nodup_iff.mpr hnodup
  · exact List.mem_reverse.mpr h

end Environ
