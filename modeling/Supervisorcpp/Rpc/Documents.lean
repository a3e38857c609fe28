/-
# XML-RPC messages as documents

The hand-written messages of both programs are XML documents in the sense of `Lib.Xml`: values,
members and structs are elements, and `escape_xml` leaves text that stands for the string it was
given. What is relied on in the XML reader is stated for one document: when it is well-formed, the
reader returns its elements in order, each text verbatim with the predefined entities decoded.

A tree represents a piece of a document if it has its names, its texts decoded and its elements in
order. The readers of both programs are then proved against trees that represent what the other side
wrote.
-/
import Mathlib.Data.List.Forall2
import Supervisorcpp.Lib.Xml
import Supervisorcpp.Rpc.Connection

namespace Supervisorcpp

open Bytes (ascii)

/-! ## The XML reader -/

/-- The tree of an element: its name, its decoded text or its child elements. The data of an element
with child elements is left open. -/
inductive Represents : Xml.Node → Bytes × Ptree → Prop
  | text (name raw : Bytes) : Represents (.text name raw) (name, .node (Xml.decode raw) [])
  | element {name data : Bytes} {children : List Xml.Node} {kids : List (Bytes × Ptree)} :
      List.Forall₂ Represents (Xml.elements children) kids →
      Represents (.element name children) (name, .node data kids)

/-- The reader accepts the document with this root, if it is well-formed, and returns its text
verbatim with the predefined entities decoded. -/
def ReadsVerbatim (readXml : Bytes → Except Bytes Ptree) (root : Xml.Node) : Prop :=
  root.WellFormed →
    ∃ data child, readXml (Xml.document root) = .ok (.node data [child]) ∧ Represents root child

mutual

/-- The tree of an element, with the white space in it dropped. -/
def treeOf : Xml.Node → Bytes × Ptree
  | .space _ => ([], .node [] [])
  | .text name raw => (name, .node (Xml.decode raw) [])
  | .element name children => (name, .node [] (treesOf children))

/-- The elements of a sequence; blanks between them are skipped. -/
def treesOf : List Xml.Node → List (Bytes × Ptree)
  | [] => []
  | n :: ns => if n.isSpace then treesOf ns else treeOf n :: treesOf ns

end

mutual

/-- Every piece has a tree that represents it. -/
theorem represents_treeOf : ∀ n : Xml.Node, n.isSpace = false → Represents n (treeOf n)
  | .space _, h => by cases h
  | .text name raw, _ => by
      rw [treeOf]
      exact .text name raw
  | .element name children, _ => by
      rw [treeOf]
      exact .element (represents_treesOf children)

theorem represents_treesOf :
    ∀ ns : List Xml.Node, List.Forall₂ Represents (Xml.elements ns) (treesOf ns)
  | [] => by
      rw [treesOf]
      exact .nil
  | n :: ns => by
      have hrest := represents_treesOf ns
      rw [treesOf]
      by_cases hn : n.isSpace = true
      · rw [if_pos hn, Xml.elements, List.filter_cons_of_neg (by simp [hn])]
        exact hrest
      · have hn' : n.isSpace = false := by simpa using hn
        rw [if_neg hn, Xml.elements, List.filter_cons_of_pos (by simp [hn'])]
        exact .cons (represents_treeOf n hn') hrest

end

/-- A reader that knows the one document with this root. -/
def readOnly (root : Xml.Node) (xml : Bytes) : Except Bytes Ptree :=
  if xml = Xml.document root then .ok (.node [] [treeOf root]) else .error (ascii "unexpected data")

/-- A reader of one document reads it verbatim. -/
theorem readOnly_verbatim {root : Xml.Node} (h : root.isSpace = false) :
    ReadsVerbatim (readOnly root) root := by
  intro _
  refine ⟨[], treeOf root, ?_, represents_treeOf root h⟩
  rw [readOnly, if_pos rfl]

/-! ## Escaped text -/

section Escape

variable {s : Bytes}

/-- A character is replaced by its entity, or is none that has one. -/
theorem replacement_xml (c : UInt8) :
    (c, replacement xmlNeedles c) ∈ Xml.entities ∨
      (replacement xmlNeedles c = [c] ∧ c ≠ 60 ∧ c ≠ 62 ∧ c ≠ 38) := by
  by_cases hc : c = 34 ∨ c = 39 ∨ c = 60 ∨ c = 62 ∨ c = 38
  · left
    rcases hc with rfl | rfl | rfl | rfl | rfl <;> decide
  · right
    simp only [not_or] at hc
    obtain ⟨hquot, hapos, hlt, hgt, hamp⟩ := hc
    refine ⟨?_, hlt, hgt, hamp⟩
    have hlookup : xmlNeedles.lookup c = none := by
      rw [List.lookup_eq_none_iff]
      simp [xmlNeedles, hquot, hapos, hlt, hgt, hamp]
    simp [replacement, hlookup]

/-- **Escaping loses nothing.**  Decoding the predefined entities gives the string back. -/
theorem decode_escapeXml (s : Bytes) : Xml.decode (escapeXml s) = s := by
  rw [escapeXml, escapeStr_eq]
  induction s with
  | nil => rfl
  | cons c s ih =>
      rw [List.flatMap_cons]
      rcases replacement_xml c with hent | ⟨heq, _, _, hamp⟩
      · rw [Xml.decode_entity _ hent, ih]
      · rw [heq, List.singleton_append, Xml.decode_byte _ hamp, ih]

/-- Escaped text has no markup in it. -/
theorem charData_escapeXml (h : 0 ∉ s) : Xml.CharData (escapeXml s) := by
  rw [escapeXml, escapeStr_eq]
  induction s with
  | nil => exact .nil
  | cons c s ih =>
      rw [List.mem_cons, not_or] at h
      rw [List.flatMap_cons]
      rcases replacement_xml c with hent | ⟨heq, hlt, hgt, hamp⟩
      · exact .entity hent (ih h.2)
      · rw [heq]
        exact .byte (Ne.symm h.1) hlt hgt hamp (ih h.2)

/-- Text without markup stands for itself. -/
theorem charData_plain (h : ∀ b ∈ s, b ≠ 0 ∧ b ≠ 60 ∧ b ≠ 62 ∧ b ≠ 38) :
    Xml.CharData s ∧ Xml.decode s = s := by
  induction s with
  | nil => exact ⟨.nil, rfl⟩
  | cons c s ih =>
      obtain ⟨⟨hzero, hlt, hgt, hamp⟩, hs⟩ := List.forall_mem_cons.mp h
      exact ⟨.byte hzero hlt hgt hamp (ih hs).1, by rw [Xml.decode_byte _ hamp, (ih hs).2]⟩

end Escape

/-! ## Reading a tree -/

section Lookup

variable {key key' data : Bytes} {path : List Bytes} {t : Ptree} {kids : List (Bytes × Ptree)}

/-- The first element of the name is the one that is found. -/
theorem getChild_hit : (Ptree.node data ((key, t) :: kids)).getChildOptional (key :: path) =
    t.getChildOptional path := by
  simp [Ptree.getChildOptional, Ptree.children]

/-- Elements of other names are passed over. -/
theorem getChild_miss (h : key' ≠ key) :
    (Ptree.node data ((key', t) :: kids)).getChildOptional (key :: path) =
      (Ptree.node data kids).getChildOptional (key :: path) := by
  simp [Ptree.getChildOptional, Ptree.children, h]

theorem getChild_none : (Ptree.node data []).getChildOptional (key :: path) = none := rfl

theorem getChild_here : t.getChildOptional [] = some t := rfl

end Lookup

section Tree

variable {name : Bytes} {children : List Xml.Node} {child : Bytes × Ptree}

/-- What represents an element is its name with what represents its children. -/
theorem Represents.element_inv (h : Represents (.element name children) child) :
    ∃ data kids, child = (name, .node data kids) ∧
      List.Forall₂ Represents (Xml.elements children) kids := by
  cases h with
  | element hkids => exact ⟨_, _, rfl, hkids⟩

/-- An element with one child element. -/
theorem Represents.only {n : Xml.Node} (h : Represents (.element name children) child)
    (hone : Xml.elements children = [n]) :
    ∃ data kid, child = (name, .node data [kid]) ∧ Represents n kid := by
  obtain ⟨data, kids, rfl, hkids⟩ := h.element_inv
  rw [hone] at hkids
  obtain ⟨kid, kids, hkid, hnil, rfl⟩ := List.forall₂_cons_left_iff.mp hkids
  obtain rfl := List.forall₂_nil_left_iff.mp hnil
  exact ⟨data, kid, rfl, hkid⟩

/-- An element with two child elements. -/
theorem Represents.pair {n n' : Xml.Node} (h : Represents (.element name children) child)
    (htwo : Xml.elements children = [n, n']) :
    ∃ data kid kid', child = (name, .node data [kid, kid']) ∧ Represents n kid ∧
      Represents n' kid' := by
  obtain ⟨data, kids, rfl, hkids⟩ := h.element_inv
  rw [htwo] at hkids
  obtain ⟨kid, kids, hkid, hrest, rfl⟩ := List.forall₂_cons_left_iff.mp hkids
  obtain ⟨kid', kids, hkid', hnil, rfl⟩ := List.forall₂_cons_left_iff.mp hrest
  obtain rfl := List.forall₂_nil_left_iff.mp hnil
  exact ⟨data, kid, kid', rfl, hkid, hkid'⟩

/-- Escaped text comes back as the string it was made of. -/
theorem Represents.escaped {s : Bytes} (h : Represents (.text name (escapeXml s)) child) :
    child = (name, .node s []) := by
  cases h with
  | text => rw [decode_escapeXml]

end Tree

end Supervisorcpp
