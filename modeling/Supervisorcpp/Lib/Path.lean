/-
# Paths as C++ reads them

`std::filesystem::path` on a POSIX system, as what its iterators see: whether it starts at the root,
and its file names. A name holds no slash; the empty name at the end stands for a trailing slash.
Repeated slashes are gone from the text of a path.
-/
import Mathlib.Data.List.TakeWhile
import Supervisorcpp.Lib.Bytes

/-- A file name as it stands in a path. -/
abbrev FileName := { name : Bytes // (47 : UInt8) ∉ name }

namespace FileName

/-- The name written in ASCII, cut where a slash would begin. -/
def ofAscii (s : String) : FileName :=
  ⟨(Bytes.ascii s).takeWhile (· != 47), fun h => by simpa using List.mem_takeWhile_imp h⟩

/-- The name behind a trailing separator. -/
def empty : FileName := ⟨[], List.not_mem_nil⟩

/-- The name of the directory itself. -/
def dot : FileName := ⟨[46], by decide⟩

/-- The name of the parent. -/
def dotDot : FileName := ⟨[46, 46], by decide⟩

/-- A name a directory can hold. -/
def IsEntry (n : FileName) : Prop := n ≠ empty ∧ n ≠ dot ∧ n ≠ dotDot

instance (n : FileName) : Decidable n.IsEntry :=
  inferInstanceAs (Decidable (n ≠ empty ∧ n ≠ dot ∧ n ≠ dotDot))

end FileName

/-- `std::filesystem::path`. -/
structure FsPath where
  absolute : Bool
  names : List FileName
  deriving DecidableEq

namespace FsPath

/-! ## Text -/

/-- The names between the slashes of a text, empty ones too. -/
def split : Bytes → List FileName
  | [] => [.empty]
  | b :: bs =>
    if h : b = 47 then .empty :: split bs
    else
      match split bs with
      | [] => [⟨[b], by simpa using Ne.symm h⟩]
      | n :: ns => ⟨b :: n.1, by simpa using ⟨Ne.symm h, n.2⟩⟩ :: ns

/-- The path with this text. -/
def ofText (text : Bytes) : FsPath :=
  let names := (split text).filter (· ≠ .empty)
  { absolute := text.head? = some 47
    names := if names ≠ [] ∧ text.getLast? = some 47 then names ++ [.empty] else names }

/-- The names with slashes between them. -/
def join : List FileName → Bytes
  | [] => []
  | [n] => n.1
  | n :: ns => n.1 ++ 47 :: join ns

/-- `string()`. -/
def text (p : FsPath) : Bytes := (if p.absolute then [47] else []) ++ join p.names

/-- What an iterator over the path visits: the root directory, if there is one, and the names. -/
def components (p : FsPath) : List Bytes :=
  (if p.absolute then [[47]] else []) ++ p.names.map (·.1)

/-! ## Decomposition -/

/-- The path without any text. -/
def isEmpty (p : FsPath) : Bool := !p.absolute && p.names.isEmpty

/-- `parent_path()`. -/
def parentPath (p : FsPath) : FsPath := { p with names := p.names.dropLast }

/-- `filename()`. -/
def filename (p : FsPath) : FileName := p.names.getLast?.getD .empty

/-- `operator/`. -/
def append (p q : FsPath) : FsPath :=
  if q.absolute then q
  else
    -- a trailing slash is taken up by the one that is put between
    let names := if p.names.getLast? = some .empty then p.names.dropLast else p.names
    if q.names = [] then { p with names := if names = [] then [] else names ++ [.empty] }
    else { p with names := names ++ q.names }

/-- The path of a single name; `filename()` of a path as a path. -/
def ofName (n : FileName) : FsPath := ⟨false, if n = .empty then [] else [n]⟩

/-- One component of `lexically_normal`: the names so far, the last one first, and whether a slash
follows them. -/
def normalStep (absolute : Bool) (st : List FileName × Bool) (n : FileName) :
    List FileName × Bool :=
  if n = .empty ∨ n = .dot then (st.1, true)
  else if n = .dotDot then
    match st.1 with
    | [] => if absolute then st else ([.dotDot], false)
    | top :: rest => if top = .dotDot then (.dotDot :: st.1, false) else (rest, true)
  else (n :: st.1, false)

/-- `lexically_normal()`. -/
def lexicallyNormal (p : FsPath) : FsPath :=
  if p.isEmpty then p
  else
    let st := p.names.foldl (normalStep p.absolute) ([], false)
    let names := match st.1 with
      | [] => if p.absolute then [] else [.dot]
      | top :: _ => st.1.reverse ++ if st.2 ∧ top ≠ .dotDot then [.empty] else []
    { p with names := names }

section Append

variable {p : FsPath}

/-- What is in an absolute path is absolute. -/
theorem append_absolute (hp : p.absolute = true) (n : FileName) :
    (p.append (ofName n)).absolute = true := by
  simp only [append, ofName, Bool.false_eq_true, if_false]
  split <;> exact hp

theorem foldl_append_absolute (hp : p.absolute = true) (ns : List FileName) :
    (ns.foldl (fun p n => p.append (ofName n)) p).absolute = true := by
  induction ns generalizing p with
  | nil => exact hp
  | cons n ns ih => exact ih (append_absolute hp n)

/-- A name goes behind the names. -/
theorem append_ofName {n : FileName} (hproper : .empty ∉ p.names) (hn : n ≠ .empty) :
    p.append (ofName n) = { p with names := p.names ++ [n] } := by
  have hlast : p.names.getLast? ≠ some .empty := fun h => hproper (List.mem_of_getLast? h)
  simp [append, ofName, hn, hlast]

/-- A path that ends in a name is its parent and that name. -/
theorem names_eq_of_entry (h : p.filename.IsEntry) : p.names.dropLast ++ [p.filename] = p.names := by
  have hne : p.names ≠ [] := by
    intro hnil
    exact h.1 (by simp [filename, hnil])
  rw [filename, List.getLast?_eq_some_getLast hne]
  exact List.dropLast_append_getLast hne

/-- The directory of a name after a path. -/
theorem parentPath_append {q : FsPath} (hproper : .empty ∉ p.names) (hq : q.absolute = false) :
    (p.append q).parentPath = { p with names := p.names ++ q.names.dropLast } := by
  have hlast : p.names.getLast? ≠ some .empty := fun h => hproper (List.mem_of_getLast? h)
  simp only [append, hq, hlast, Bool.false_eq_true, if_false, parentPath]
  by_cases hnames : q.names = []
  · rw [if_pos hnames, hnames]
    by_cases hp : p.names = []
    · simp [hp]
    · simp [hp]
  · rw [if_neg hnames, List.dropLast_append_of_ne_nil hnames]

/-- The last name of a relative path stays the last. -/
theorem filename_append {q : FsPath} (hproper : .empty ∉ p.names) (hq : q.absolute = false) :
    (p.append q).filename = q.filename := by
  have hlast : p.names.getLast? ≠ some .empty := fun h => hproper (List.mem_of_getLast? h)
  simp only [append, hq, hlast, Bool.false_eq_true, if_false, filename]
  by_cases hnames : q.names = []
  · rw [if_pos hnames, hnames]
    by_cases hp : p.names = []
    · simp [hp]
    · simp [hp]
  · rw [if_neg hnames, List.getLast?_append_of_ne_nil _ hnames]

/-- Only the last name of a text can be empty. -/
theorem ofText_proper (s : Bytes) : .empty ∉ (ofText s).parentPath.names := by
  have hfilter : .empty ∉ (split s).filter (· ≠ .empty) := by simp
  simp only [ofText, parentPath]
  split
  · rw [List.dropLast_concat]
    exact hfilter
  · exact fun h => hfilter (List.dropLast_subset _ h)

/-- Normal form keeps what a path starts from. -/
theorem lexicallyNormal_absolute (p : FsPath) : p.lexicallyNormal.absolute = p.absolute := by
  unfold lexicallyNormal
  split <;> rfl

end Append

section Normal

variable {absolute : Bool} {st : List FileName × Bool}

theorem normalStep_empty (n : FileName) (h : .empty ∉ st.1) :
    .empty ∉ (normalStep absolute st n).1 := by
  unfold normalStep
  split
  · exact h
  · next hn =>
      split
      · cases hst : st.1 with
        | nil =>
            cases absolute with
            | true => simp [hst]
            | false =>
                show .empty ∉ [FileName.dotDot]
                decide
        | cons top rest =>
            rw [hst, List.mem_cons, not_or] at h
            dsimp only
            split
            · rw [List.mem_cons, List.mem_cons, not_or, not_or]
              exact ⟨by decide, h⟩
            · exact h.2
      · rw [List.mem_cons, not_or]
        exact ⟨fun heq => hn (.inl heq.symm), h⟩

/-- A normal path is not a lone trailing slash. -/
theorem lexicallyNormal_names (p : FsPath) : p.lexicallyNormal.names ≠ [.empty] := by
  unfold lexicallyNormal
  split
  · next hempty =>
      simp only [isEmpty, Bool.and_eq_true, List.isEmpty_iff] at hempty
      simp [hempty.2]
  · have hfold : ∀ (ns : List FileName) (st : List FileName × Bool), .empty ∉ st.1 →
        .empty ∉ (ns.foldl (normalStep p.absolute) st).1 := by
      intro ns
      induction ns with
      | nil => exact fun _ h => h
      | cons n ns ih => exact fun st h => ih _ (normalStep_empty n h)
    have hst := hfold p.names ([], false) List.not_mem_nil
    dsimp only
    split
    · split <;> decide
    · next top rest htop =>
        intro heq
        have hmem : top ∈ (p.names.foldl (normalStep p.absolute) ([], false)).1 := by simp [htop]
        have hin : top ∈ [FileName.empty] := heq ▸ List.mem_append_left _ (List.mem_reverse.mpr hmem)
        rw [List.mem_singleton.mp hin] at hmem
        exact hst hmem

end Normal

/-! ## Absolute paths by their text -/

/-- The text of an absolute path puts a slash before every name. -/
theorem text_absolute {n : FileName} {ns : List FileName} :
    (FsPath.mk true (n :: ns)).text = (n :: ns).flatMap fun n => 47 :: n.1 := by
  have hjoin : ∀ (n : FileName) ns, 47 :: join (n :: ns) = (n :: ns).flatMap fun n => 47 :: n.1 := by
    intro n ns
    induction ns generalizing n with
    | nil => simp [join]
    | cons m ns ih =>
        rw [join, List.flatMap_cons, ← ih m]
        · rfl
        · simp
  exact hjoin n ns

theorem text_root : (FsPath.mk true []).text = [47] := rfl

/-! ## Reading a text back -/

section ReadBack

variable {n : FileName} {ns : List FileName}

/-- The first slash ends the first name. -/
theorem split_name_append (n : FileName) (s : Bytes) : split (n.1 ++ 47 :: s) = n :: split s := by
  obtain ⟨bs, hbs⟩ := n
  induction bs with
  | nil => simp [split, FileName.empty]
  | cons b bs ih =>
      rw [List.mem_cons, not_or] at hbs
      have htail : split (bs ++ 47 :: s) = ⟨bs, hbs.2⟩ :: split s := ih hbs.2
      have hb : b ≠ 47 := Ne.symm hbs.1
      simp [split, hb, htail]

theorem split_name (n : FileName) : split n.1 = [n] := by
  obtain ⟨bs, hbs⟩ := n
  induction bs with
  | nil => rfl
  | cons b bs ih =>
      rw [List.mem_cons, not_or] at hbs
      have htail : split bs = [⟨bs, hbs.2⟩] := ih hbs.2
      have hb : b ≠ 47 := Ne.symm hbs.1
      simp [split, hb, htail]

/-- Joined names are found again. -/
theorem split_join (hne : ns ≠ []) : split (join ns) = ns := by
  induction ns with
  | nil => exact absurd rfl hne
  | cons n ns ih =>
      cases ns with
      | nil => exact split_name n
      | cons m ns =>
          rw [join, split_name_append, ih (List.cons_ne_nil m ns)]
          simp

theorem join_ne_nil (hne : ns ≠ []) (hproper : .empty ∉ ns) : join ns ≠ [] := by
  intro hnil
  have hsplit := split_join hne
  rw [hnil] at hsplit
  exact hproper (hsplit ▸ List.mem_singleton_self _)

/-- A path of proper names does not end in a slash. -/
theorem getLast?_join (hne : ns ≠ []) (hproper : .empty ∉ ns) :
    (join ns).getLast? ≠ some 47 := by
  induction ns with
  | nil => exact absurd rfl hne
  | cons n ns ih =>
      rw [List.mem_cons, not_or] at hproper
      cases ns with
      | nil => exact fun h => n.2 (List.mem_of_getLast? h)
      | cons m ns =>
          rw [join, List.getLast?_append_of_ne_nil _ (List.cons_ne_nil _ _),
            List.getLast?_cons_of_ne_nil (join_ne_nil (List.cons_ne_nil m ns) hproper.2)]
          · exact ih (List.cons_ne_nil m ns) hproper.2
          · simp

/-- **The text of an absolute path reads back** as the path. -/
theorem ofText_text (hproper : .empty ∉ ns) : ofText (FsPath.mk true ns).text = ⟨true, ns⟩ := by
  by_cases hne : ns = []
  · rw [hne]
    rfl
  · have htext : (FsPath.mk true ns).text = FileName.empty.1 ++ 47 :: join ns := rfl
    have hsplit : (split (FsPath.mk true ns).text).filter (· ≠ .empty) = ns := by
      rw [htext, split_name_append, split_join hne]
      simp only [List.filter_cons, ne_eq, not_true_eq_false, decide_false, Bool.false_eq_true,
        if_false]
      exact List.filter_eq_self.mpr fun m hm => decide_eq_true fun heq => hproper (heq ▸ hm)
    have hlast : (FsPath.mk true ns).text.getLast? ≠ some 47 := by
      rw [htext, List.getLast?_append_of_ne_nil _ (List.cons_ne_nil _ _),
        List.getLast?_cons_of_ne_nil (join_ne_nil hne hproper)]
      exact getLast?_join hne hproper
    simp only [ofText, hsplit, hlast, and_false, if_false]
    simp [text]

end ReadBack

/-- The second path is in a directory beside the first one, whose name goes on where the name of the
first one ends. -/
def Beside (d r : FsPath) : Prop :=
  ∃ (parent : List FileName) (name longer : FileName) (rest : List FileName) (more : Bytes),
    d.names = parent ++ [name] ∧ more ≠ [] ∧ longer.1 = name.1 ++ more ∧
      r.names = parent ++ longer :: rest

section Prefixes

variable {n m : FileName} {ds rs : List FileName}

/-- The bytes up to the first slash are the same on both sides. -/
theorem name_eq_of_append {s t : Bytes} (h : n.1 ++ 47 :: s = m.1 ++ 47 :: t) : n = m ∧ s = t := by
  have htake : ∀ (a : FileName) (u : Bytes), (a.1 ++ 47 :: u).takeWhile (· != 47) = a.1 := by
    intro a u
    rw [List.takeWhile_append_of_pos]
    · simp
    · intro b hb
      have hne : b ≠ 47 := fun heq => a.2 (heq ▸ hb)
      simpa using hne
  have hname : n.1 = m.1 := by
    rw [← htake n s, h, htake m t]
  refine ⟨Subtype.ext hname, ?_⟩
  rw [hname] at h
  simpa using h

/-- A name that starts a text starts the first name of the text. -/
theorem name_starts {s : Bytes} (h : n.1 <+: m.1 ++ s) (hs : ∀ b ∈ s.head?, b = 47) :
    n.1 <+: m.1 := by
  rcases List.prefix_or_prefix_of_prefix h (List.prefix_append m.1 s) with hle | ⟨t, ht⟩
  · exact hle
  · rw [← ht, List.prefix_append_right_inj] at h
    cases t with
    | nil => simp [← ht]
    | cons b t =>
        obtain ⟨u, rfl⟩ := h
        obtain rfl : b = 47 := hs b rfl
        exact absurd (ht ▸ List.mem_append_right m.1 List.mem_cons_self) n.2

/-- Paths that lie beside each other do so under one more directory. -/
theorem beside_cons (h : Beside ⟨true, ds⟩ ⟨true, rs⟩) : Beside ⟨true, n :: ds⟩ ⟨true, n :: rs⟩ := by
  obtain ⟨parent, name, longer, rest, more, hd, hmore, hlonger, hr⟩ := h
  refine ⟨n :: parent, name, longer, rest, more, ?_, hmore, hlonger, ?_⟩
  · exact congrArg (n :: ·) hd
  · exact congrArg (n :: ·) hr

/-- Where the text of one path starts the text of another, the first path is above the second one or
only its last name starts a name of the second. -/
theorem flat_prefix_iff : (ds.flatMap fun n => 47 :: n.1) <+: (rs.flatMap fun n => 47 :: n.1) ↔
    ds <+: rs ∨ Beside ⟨true, ds⟩ ⟨true, rs⟩ := by
  constructor
  · intro h
    induction ds generalizing rs with
    | nil => exact .inl List.nil_prefix
    | cons n ds ih =>
        cases rs with
        | nil => simp at h
        | cons m rs =>
            simp only [List.flatMap_cons, List.cons_append, List.cons_prefix_cons, true_and] at h
            cases ds with
            | nil =>
                have hhead : ∀ b ∈ (rs.flatMap fun n => 47 :: n.1).head?, b = 47 := by
                  cases rs <;> simp
                have hname : n.1 <+: m.1 := name_starts (by simpa using h) hhead
                obtain ⟨more, hmore⟩ := hname
                by_cases hend : more = []
                · obtain rfl : n = m := Subtype.ext (by simpa [hend] using hmore)
                  exact .inl (List.prefix_append [n] rs)
                · exact .inr ⟨[], n, m, rs, more, rfl, hend, hmore.symm, rfl⟩
            | cons d ds =>
                obtain ⟨t, ht⟩ := h
                cases rs with
                | nil =>
                    have hmem : (47 : UInt8) ∈ m.1 := by
                      rw [List.flatMap_nil, List.append_nil] at ht
                      rw [← ht]
                      simp
                    exact absurd hmem m.2
                | cons r rs =>
                    simp only [List.flatMap_cons, List.cons_append, List.append_assoc] at ht
                    obtain ⟨rfl, hrest⟩ := name_eq_of_append ht
                    have hpre : ((d :: ds).flatMap fun n => 47 :: n.1) <+:
                        ((r :: rs).flatMap fun n => 47 :: n.1) := by
                      refine ⟨t, ?_⟩
                      simp only [List.flatMap_cons, List.cons_append, List.append_assoc, hrest]
                    rcases ih hpre with habove | hbeside
                    · exact .inl ((List.cons_prefix_cons).mpr ⟨rfl, habove⟩)
                    · exact .inr (beside_cons hbeside)
  · rintro (⟨t, rfl⟩ | ⟨parent, name, longer, rest, more, hd, _, hlonger, hr⟩)
    · rw [List.flatMap_append]
      exact List.prefix_append _ _
    · obtain rfl : ds = parent ++ [name] := hd
      obtain rfl : rs = parent ++ longer :: rest := hr
      refine ⟨more ++ rest.flatMap fun n => 47 :: n.1, ?_⟩
      simp [hlonger]

end Prefixes

section Absolute

variable {d r : FsPath}

/-- The same for the texts themselves. -/
theorem text_prefix_iff (hd : d.absolute = true) (hr : r.absolute = true)
    (hne : d.names ≠ [.empty]) : d.text <+: r.text ↔ d.names <+: r.names ∨ Beside d r := by
  obtain ⟨_, ds⟩ := d
  obtain ⟨_, rs⟩ := r
  obtain rfl : _ = true := hd
  obtain rfl : _ = true := hr
  cases ds with
  | nil =>
      have hroot : (FsPath.mk true []).text <+: (FsPath.mk true rs).text := List.prefix_append [47] _
      exact iff_of_true hroot (.inl List.nil_prefix)
  | cons n ds =>
      cases rs with
      | nil =>
          have hname : ¬ (FsPath.mk true (n :: ds)).text <+: (FsPath.mk true []).text := by
            rw [text_absolute, text_root, List.flatMap_cons, List.cons_append,
              List.cons_prefix_cons, List.prefix_nil, List.append_eq_nil_iff]
            rintro ⟨_, hn, hds⟩
            cases ds with
            | nil => exact hne (congrArg ([·]) (Subtype.ext hn))
            | cons m ds => simp at hds
          refine iff_of_false hname ?_
          rintro (h | ⟨parent, _, _, _, _, _, _, _, h⟩)
          · simp at h
          · exact absurd h.symm (by simp)
      | cons m rs => rw [text_absolute, text_absolute, flat_prefix_iff]

/-- For absolute paths, to compare the components is to compare the names. -/
theorem components_prefix_iff (hd : d.absolute = true) (hr : r.absolute = true) :
    d.components <+: r.components ↔ d.names <+: r.names := by
  simp only [components, hd, hr, if_true, List.singleton_append, List.cons_prefix_cons, true_and]
  constructor
  · intro h
    obtain ⟨ns, hns, heq⟩ := List.prefix_map_iff.mp h
    rwa [List.map_injective_iff.mpr Subtype.val_injective heq]
  · exact fun h => h.map _

/-- What is in a directory is not beside it. -/
theorem not_beside_of_above (h : d.names <+: r.names) : ¬ Beside d r := by
  rintro ⟨parent, name, longer, rest, more, hd, hmore, hlonger, hr⟩
  rw [hd, hr, List.prefix_append_right_inj, List.cons_prefix_cons] at h
  rw [← h.1] at hlonger
  exact hmore (by simpa using hlonger)

end Absolute

end FsPath
