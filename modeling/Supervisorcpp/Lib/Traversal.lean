/-
# Depth-first traversals

A traversal of a graph from a node, to a bounded depth: a node is entered, its children are traversed
in order, and the node is left. Entering works on one part of a state and leaving on the other, and
either may fail. The run of such a traversal is the same as two loops, over the nodes in the order in
which they are entered (`preorder`) and in the order in which they are left (`postorder`).
-/
import Mathlib.Data.List.Perm.Basic
import Supervisorcpp.Lib.Results

namespace Traversal

variable {α σ τ ε : Type*}

/-- The nodes in the order in which they are entered, to this depth. -/
def preorder (kids : α → List α) : Nat → α → List α
  | 0, _ => []
  | n + 1, a => a :: (kids a).flatMap (preorder kids n)

/-- The nodes in the order in which they are left. -/
def postorder (kids : α → List α) : Nat → α → List α
  | 0, _ => []
  | n + 1, a => (kids a).flatMap (postorder kids n) ++ [a]

/-- The traversal. -/
def dfs (kids : α → List α) (enter : σ → α → Except ε σ) (leave : τ → α → Except ε τ) :
    Nat → σ × τ → α → Except ε (σ × τ)
  | 0, s, _ => .ok s
  | n + 1, s, a =>
    (enter s.1 a).bind fun entered =>
      ((kids a).foldlM (dfs kids enter leave n) (entered, s.2)).bind fun s =>
        (leave s.2 a).map fun left => (s.1, left)

variable {kids : α → List α} {enter : σ → α → Except ε σ} {leave : τ → α → Except ε τ}
  {s s' : σ} {t t' : τ} {n : Nat} {a : α}

/-- The two orders have the same nodes. -/
theorem postorder_perm (kids : α → List α) (n : Nat) (a : α) :
    (postorder kids n a).Perm (preorder kids n a) := by
  induction n generalizing a with
  | zero => exact .refl _
  | succ n ih =>
      rw [postorder, preorder]
      refine .trans List.perm_append_comm (.cons a ?_)
      exact List.Perm.flatMap_left (kids a) fun b _ => ih b

/-- Both orders visit the same nodes. -/
theorem mem_postorder {b : α} : b ∈ postorder kids n a ↔ b ∈ preorder kids n a :=
  (postorder_perm kids n a).mem_iff

/-- A list of nodes, one after the other. -/
theorem dfs_list_eq_ok {as : List α}
    (h : ∀ a s t s' t', dfs kids enter leave n (s, t) a = .ok (s', t') ↔
      (preorder kids n a).foldlM enter s = .ok s' ∧ (postorder kids n a).foldlM leave t = .ok t') :
    as.foldlM (dfs kids enter leave n) (s, t) = .ok (s', t') ↔
      (as.flatMap (preorder kids n)).foldlM enter s = .ok s' ∧
        (as.flatMap (postorder kids n)).foldlM leave t = .ok t' := by
  induction as generalizing s t with
  | nil => simp [pure, Except.pure]
  | cons a as ih =>
      rw [List.foldlM_cons, List.flatMap_cons, List.flatMap_cons, List.foldlM_append,
        List.foldlM_append]
      constructor
      · intro hok
        obtain ⟨⟨s₁, t₁⟩, hone, hrest⟩ := Results.bind_eq_ok.mp hok
        obtain ⟨hs, ht⟩ := (h ..).mp hone
        obtain ⟨hs', ht'⟩ := ih.mp hrest
        exact ⟨Results.bind_eq_ok.mpr ⟨s₁, hs, hs'⟩, Results.bind_eq_ok.mpr ⟨t₁, ht, ht'⟩⟩
      · rintro ⟨hs, ht⟩
        obtain ⟨s₁, hs₁, hs'⟩ := Results.bind_eq_ok.mp hs
        obtain ⟨t₁, ht₁, ht'⟩ := Results.bind_eq_ok.mp ht
        exact Results.bind_eq_ok.mpr ⟨(s₁, t₁), (h ..).mpr ⟨hs₁, ht₁⟩, ih.mpr ⟨hs', ht'⟩⟩

/-- **A traversal is two loops.** -/
theorem dfs_eq_ok : dfs kids enter leave n (s, t) a = .ok (s', t') ↔
    (preorder kids n a).foldlM enter s = .ok s' ∧ (postorder kids n a).foldlM leave t = .ok t' := by
  induction n generalizing a s t s' t' with
  | zero =>
      simp only [dfs, preorder, postorder, List.foldlM_nil, Except.ok.injEq, Prod.mk.injEq, pure,
        Except.pure]
  | succ n ih =>
      have hlist : ∀ s t s' t', (kids a).foldlM (dfs kids enter leave n) (s, t) = .ok (s', t') ↔ _ :=
        fun _ _ _ _ => dfs_list_eq_ok fun _ _ _ _ _ => ih
      rw [preorder, postorder, List.foldlM_cons, List.foldlM_append]
      constructor
      · intro hok
        obtain ⟨s₁, henter, hok⟩ := Results.bind_eq_ok.mp hok
        obtain ⟨⟨s₂, t₂⟩, hkids, hok⟩ := Results.bind_eq_ok.mp hok
        obtain ⟨t₃, hleave, heq⟩ := Results.map_eq_ok.mp hok
        obtain ⟨rfl, rfl⟩ := Prod.mk.inj heq
        obtain ⟨hs, ht⟩ := (hlist ..).mp hkids
        refine ⟨Results.bind_eq_ok.mpr ⟨s₁, henter, hs⟩, Results.bind_eq_ok.mpr ⟨t₂, ht, ?_⟩⟩
        rw [List.foldlM_cons]
        exact Results.bind_eq_ok.mpr ⟨t₃, hleave, rfl⟩
      · rintro ⟨hs, ht⟩
        obtain ⟨s₁, henter, hs₁⟩ := Results.bind_eq_ok.mp hs
        obtain ⟨t₂, ht₂, hlast⟩ := Results.bind_eq_ok.mp ht
        rw [List.foldlM_cons] at hlast
        obtain ⟨t₃, hleave, hnil⟩ := Results.bind_eq_ok.mp hlast
        obtain rfl := Except.ok.inj hnil
        exact Results.bind_eq_ok.mpr ⟨s₁, henter, Results.bind_eq_ok.mpr ⟨(s', t₂),
          (hlist ..).mpr ⟨hs₁, ht₂⟩, Results.map_eq_ok.mpr ⟨t₃, hleave, rfl⟩⟩⟩

end Traversal
