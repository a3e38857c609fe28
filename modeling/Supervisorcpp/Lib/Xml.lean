/-
# XML documents of elements and text

The XML that programs write by hand: a declaration, and a tree of elements that hold either text or
other elements, with white space between these. No attributes, no comments, no CDATA sections.

Text is kept as it stands in the document, with the five predefined entities not yet decoded, so that
what a reader has to return for it is a matter of `decode` and what a writer has to produce is a
matter of `CharData`.
-/
import Supervisorcpp.Lib.Bytes

namespace Xml

open Bytes (ascii)

/-! ## Text -/

/-- Text with the predefined entities decoded; everything else is verbatim. -/
def decode : Bytes → Bytes
  | [] => []
  -- `&lt;` `&gt;` `&amp;` `&apos;` `&quot;`
  | 38 :: 108 :: 116 :: 59 :: s => 60 :: decode s
  | 38 :: 103 :: 116 :: 59 :: s => 62 :: decode s
  | 38 :: 97 :: 109 :: 112 :: 59 :: s => 38 :: decode s
  | 38 :: 97 :: 112 :: 111 :: 115 :: 59 :: s => 39 :: decode s
  | 38 :: 113 :: 117 :: 111 :: 116 :: 59 :: s => 34 :: decode s
  | b :: s => b :: decode s

/-- The predefined entities. -/
def entities : List (UInt8 × Bytes) :=
  [(60, ascii "&lt;"), (62, ascii "&gt;"), (38, ascii "&amp;"), (39, ascii "&apos;"),
    (34, ascii "&quot;")]

/-- Text that may stand in an element: any byte but NUL, with `<`, `>` and `&` only as entities. -/
inductive CharData : Bytes → Prop
  | nil : CharData []
  | byte {b : UInt8} {s : Bytes} : b ≠ 0 → b ≠ 60 → b ≠ 62 → b ≠ 38 → CharData s → CharData (b :: s)
  | entity {b : UInt8} {text s : Bytes} : (b, text) ∈ entities → CharData s → CharData (text ++ s)

/-- Every byte but the ampersand stands for itself. -/
theorem decode_byte {b : UInt8} (s : Bytes) (h : b ≠ 38) : decode (b :: s) = b :: decode s := by
  rw [decode] <;> exact fun _ hb => absurd hb h

/-- An entity is decoded to its byte. -/
theorem decode_entity {b : UInt8} {text : Bytes} (s : Bytes) (h : (b, text) ∈ entities) :
    decode (text ++ s) = b :: decode s := by
  simp only [entities, List.mem_cons, Prod.mk.injEq, List.not_mem_nil, or_false] at h
  rcases h with ⟨rfl, rfl⟩ | ⟨rfl, rfl⟩ | ⟨rfl, rfl⟩ | ⟨rfl, rfl⟩ | ⟨rfl, rfl⟩ <;> rfl

/-! ## Nodes -/

/-- A piece of a document. -/
inductive Node where
  /-- white space between elements -/
  | space (s : Bytes)
  /-- an element that holds text -/
  | text (name raw : Bytes)
  /-- an element that holds elements -/
  | element (name : Bytes) (children : List Node)

/-- The tag that opens an element. -/
def startTag (name : Bytes) : Bytes := ascii "<" ++ name ++ ascii ">"

/-- The tag that closes an element. -/
def endTag (name : Bytes) : Bytes := ascii "</" ++ name ++ ascii ">"

mutual

/-- The text of a piece. -/
def Node.render : Node → Bytes
  | .space s => s
  | .text name raw => startTag name ++ raw ++ endTag name
  | .element name children => startTag name ++ renderAll children ++ endTag name

/-- The text of a sequence of pieces. -/
def renderAll : List Node → Bytes
  | [] => []
  | n :: ns => n.render ++ renderAll ns

end

/-- The declaration a document starts with. -/
def declaration : Bytes := ascii "<?xml version=\"1.0\"?>\n"

/-- The document with this root element. -/
def document (root : Node) : Bytes := declaration ++ root.render ++ ascii "\n"

/-- White space between elements, of which a reader keeps nothing. -/
def Node.isSpace : Node → Bool
  | .space _ => true
  | _ => false

/-- The elements among some nodes. -/
def elements (ns : List Node) : List Node := ns.filter fun n => !n.isSpace

/-- White space of XML. -/
def isBlank (b : UInt8) : Bool := b = 32 ∨ b = 9 ∨ b = 10 ∨ b = 13

/-- A name of letters. -/
def isName (name : Bytes) : Bool :=
  !name.isEmpty && name.all fun b => 65 ≤ b ∧ b ≤ 90 ∨ 97 ≤ b ∧ b ≤ 122

mutual

/-- The text of a piece has no other reading: names are names, text has no markup in it, and what
separates elements is blank. -/
def Node.WellFormed : Node → Prop
  | .space s => s.all isBlank = true
  | .text name raw => isName name = true ∧ CharData raw
  | .element name children => isName name = true ∧ AllWellFormed children

/-- Every piece of a sequence is well formed. -/
def AllWellFormed : List Node → Prop
  | [] => True
  | n :: ns => n.WellFormed ∧ AllWellFormed ns

end

/-- Pieces are written one after the other. -/
theorem renderAll_map {α : Type*} (f : α → Node) (xs : List α) :
    renderAll (xs.map f) = xs.flatMap fun x => (f x).render := by
  induction xs with
  | nil => simp [renderAll]
  | cons x xs ih => simp [renderAll, ih]

theorem allWellFormed_map {α : Type*} (f : α → Node) (xs : List α) :
    AllWellFormed (xs.map f) ↔ ∀ x ∈ xs, (f x).WellFormed := by
  induction xs with
  | nil => simp [AllWellFormed]
  | cons x xs ih => simp [AllWellFormed, ih]

/-- The elements of two sequences, one after the other. -/
theorem elements_append (ns ns' : List Node) : elements (ns ++ ns') = elements ns ++ elements ns' :=
  List.filter_append ns ns'

theorem elements_map {α : Type*} {f : α → Node} (hf : ∀ x, (f x).isSpace = false) (xs : List α) :
    elements (xs.map f) = xs.map f := by
  rw [elements, List.filter_eq_self]
  intro n hn
  obtain ⟨x, _, rfl⟩ := List.mem_map.mp hn
  simp [hf]

theorem renderAll_append (ns ns' : List Node) :
    renderAll (ns ++ ns') = renderAll ns ++ renderAll ns' := by
  induction ns with
  | nil => simp [renderAll]
  | cons n ns ih => simp [renderAll, ih]

/-- Two sequences are well formed exactly if one after the other they are. -/
theorem allWellFormed_append (ns ns' : List Node) :
    AllWellFormed (ns ++ ns') ↔ AllWellFormed ns ∧ AllWellFormed ns' := by
  induction ns with
  | nil => simp [AllWellFormed]
  | cons n ns ih => simp [AllWellFormed, ih, and_assoc]

end Xml
