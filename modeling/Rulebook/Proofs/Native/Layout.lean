/-
One layout for compiled code and packed records.
-/

import Rulebook.Native.Pack
import Rulebook.Proofs.Record

namespace Rulebook.Native

open Shape

variable {s : Shape} {columns : List (String × Datatype)}

def Field.slot (f : Field) : Slot := ⟨f.name, f.type, f.offset, f.size⟩

def Shape.slots (s : Shape) : List Slot := s.fields.map Field.slot

def Slot.bytes (s : Slot) : Finset Nat := Finset.Ico s.offset (s.offset + s.size)

def Slot.Apart (s t : Slot) : Prop := s.offset + s.size ≤ t.offset ∨ t.offset + t.size ≤ s.offset

theorem Slot.Apart.symm {s t : Slot} (h : s.Apart t) : t.Apart s := Or.symm h

theorem Slot.Apart.disjoint_bytes {s t : Slot} (h : s.Apart t) : Disjoint s.bytes t.bytes := by
  rw [Finset.disjoint_left]
  intro n hs ht
  simp only [bytes, Finset.mem_Ico] at hs ht
  rcases h with h | h <;> omega

/-! ### Offsets -/

theorem dvd_align (n) : 8 ∣ align n := ⟨(n + 7) / 8, Nat.mul_comm _ _⟩

theorem le_align (n) : n ≤ align n := by
  rw [align]
  omega

theorem le_start (d n) : n ≤ start d n := by
  cases d with
  | boolean => exact le_rfl
  | integer => exact le_align n
  | text => exact le_align n

theorem dvd_start (h : d ≠ .boolean) (n) : 8 ∣ start d n := by
  cases d with
  | boolean => exact absurd rfl h
  | integer => exact dvd_align n
  | text => exact dvd_align n

/-! ### Putting slots -/

section

variable {layout : List Slot} {s t : Slot}

theorem pairwise_putBy (h : layout.Pairwise Slot.Apart) (hs : ∀ t ∈ layout, t.Apart s) :
    (putBy Slot.name layout s).Pairwise Slot.Apart := by
  induction layout with
  | nil => exact List.pairwise_singleton _ s
  | cons u layout ih =>
    obtain ⟨hu, h⟩ := List.pairwise_cons.mp h
    have htail : ∀ t ∈ layout, t.Apart s := fun t ht => hs t (List.mem_cons_of_mem u ht)
    rw [putBy]
    split
    · exact List.pairwise_cons.mpr ⟨fun t ht => (htail t ht).symm, h⟩
    · refine List.pairwise_cons.mpr ⟨fun t ht => ?_, ih h htail⟩
      rcases mem_of_mem_putBy ht with rfl | ht
      · exact hs u (.head _)
      · exact hu t ht

end

theorem map_slot_putBy (fields f) :
    (putBy Field.name fields f).map Field.slot = putBy Slot.name (fields.map Field.slot) f.slot := by
  induction fields with
  | nil => rfl
  | cons g fields ih =>
    by_cases hname : g.name = f.name
    · simp [putBy, Field.slot, hname]
    · simp only [putBy, hname, if_false, List.map_cons, ih]
      simp [Field.slot, hname]

/-! ### Adding columns to a shape -/

section

variable (s : Shape) (column : String × Datatype)

theorem Shape.slots_add : (s.add column).slots = putBy Slot.name s.slots
    ⟨Names.snake column.1, column.2, start column.2 s.stop, width column.2⟩ := by
  obtain ⟨name, d⟩ := column
  rw [slots, add, map_slot_putBy]
  cases d <;> rfl

theorem Shape.stop_add : (s.add column).stop = start column.2 s.stop + width column.2 := by
  obtain ⟨name, d⟩ := column
  cases d <;> rfl

end

/-- **The two layouts are one**, from whatever is placed already. -/
theorem Shape.slots_foldl_add (s columns) :
    (columns.foldl add s).slots = placeSlots s.slots s.stop columns := by
  induction columns generalizing s with
  | nil => rfl
  | cons column columns ih => rw [List.foldl_cons, ih, slots_add, stop_add, placeSlots]

/-- Slots below a byte: each as wide as its datatype asks, integers and texts at multiples of
eight, and no two with one name or a common byte. -/
structure Laid (stop : Nat) (layout : List Slot) : Prop where
  names : (layout.map Slot.name).Nodup
  sized : ∀ s ∈ layout, s.size = width s.type
  aligned : ∀ s ∈ layout, s.type ≠ .boolean → 8 ∣ s.offset
  below : ∀ s ∈ layout, s.offset + s.size ≤ stop
  apart : layout.Pairwise Slot.Apart

/-- **The step.** A slot that starts behind all others leaves them aligned and apart. -/
theorem Laid.put {stop layout} (h : Laid stop layout) (name d) : Laid (start d stop + width d)
      (putBy Slot.name layout ⟨name, d, start d stop, width d⟩) where
  names := nodup_keys_putBy h.names
  sized t ht := by
    rcases mem_of_mem_putBy ht with rfl | ht
    · rfl
    · exact h.sized t ht
  aligned t ht hd := by
    rcases mem_of_mem_putBy ht with rfl | ht
    · exact dvd_start hd stop
    · exact h.aligned t ht hd
  below t ht := by
    rcases mem_of_mem_putBy ht with rfl | ht
    · exact le_rfl
    · exact (h.below t ht).trans ((le_start d stop).trans (Nat.le_add_right _ _))
  apart := by
    refine pairwise_putBy h.apart fun t ht => .inl ?_
    exact (h.below t ht).trans (le_start d stop)

/-- **The run.** Adding columns to a shape keeps its slots aligned and apart. -/
theorem Shape.laid_foldl_add (h : Laid s.stop s.slots) (columns : List (String × Datatype)) :
    Laid (columns.foldl add s).stop (columns.foldl add s).slots := by
  induction columns generalizing s with
  | nil => exact h
  | cons column columns ih =>
    refine ih ?_
    rw [slots_add, stop_add]
    exact h.put (Names.snake column.1) column.2

theorem shape_laid (columns) : Laid (shape columns).stop (shape columns).slots := by
  have hempty : Laid 0 (Shape.slots ⟨[], 0⟩) := by
    refine ⟨List.nodup_nil, ?_, ?_, ?_, .nil⟩ <;> simp [Shape.slots]
  exact laid_foldl_add hempty columns

/-! ### Slots and their columns -/

/-- The last column that is spelled with underscores in a certain way. -/
def lastSpelled? (columns : List (String × Datatype)) (name : String) :
    Option (String × Datatype) :=
  columns.reverse.find? fun c => Names.snake c.1 = name

theorem lastSpelled?_cons (c columns name) : lastSpelled? (c :: columns) name =
      (lastSpelled? columns name).or (if Names.snake c.1 = name then some c else none) := by
  by_cases hc : Names.snake c.1 = name <;> simp [lastSpelled?]

theorem Shape.type_of_mem_foldl_add (h : Laid s.stop s.slots)
    (ht : t ∈ (columns.foldl add s).slots) :
    (lastSpelled? columns t.name).map Prod.snd = some t.type ∨
      lastSpelled? columns t.name = none ∧ t ∈ s.slots := by
  induction columns generalizing s with
  | nil => exact .inr ⟨rfl, ht⟩
  | cons c columns ih =>
    have hadd : Laid (s.add c).stop (s.add c).slots := by
      rw [slots_add, stop_add]
      exact h.put (Names.snake c.1) c.2
    rw [lastSpelled?_cons]
    rcases ih hadd ht with hlast | ⟨hnone, hmem⟩
    · grind
    · rw [slots_add] at hmem
      rw [hnone]
      by_cases hnew : t = ⟨Names.snake c.1, c.2, start c.2 s.stop, width c.2⟩
      · subst hnew
        exact .inl (by simp)
      · have hname := key_ne_of_mem_putBy h.names hmem hnew
        exact .inr ⟨if_neg hname.symm, (mem_of_mem_putBy hmem).resolve_left hnew⟩

theorem Shape.mem_names_foldl_add
    (h : name ∈ s.slots.map Slot.name ∨ ∃ c ∈ columns, Names.snake c.1 = name) :
    name ∈ (columns.foldl add s).slots.map Slot.name := by
  induction columns generalizing s with
  | nil => exact h.resolve_right (by simp)
  | cons c columns ih => grind [slots_add, mem_keys_putBy]

/-- **One layout.** Compiled code and packed records have the same slots, one for every spelling of
the columns, with the datatype of the last column spelled so. Each is as wide as its datatype asks,
integers and texts start at multiples of eight, no two slots share a byte, and all end inside the
record. -/
theorem layout_shared (columns : List (String × Datatype)) : (shape columns).slots = slots columns ∧
    ((slots columns).map Slot.name).Nodup ∧
    (∀ c ∈ columns, Names.snake c.1 ∈ (slots columns).map Slot.name) ∧
    (∀ s ∈ slots columns, (lastSpelled? columns s.name).map Prod.snd = some s.type ∧
      s.size = width s.type ∧ (s.type ≠ .boolean → 8 ∣ s.offset)) ∧
    (slots columns).Pairwise (fun s t => Disjoint s.bytes t.bytes) ∧
    (∀ s ∈ slots columns, s.offset + s.size ≤ (shape columns).total) ∧
    8 ∣ (shape columns).total := by
  have hslots : (shape columns).slots = slots columns := slots_foldl_add ⟨[], 0⟩ columns
  have hlaid := shape_laid columns
  have hcolumn : ∀ c ∈ columns, Names.snake c.1 ∈ (shape columns).slots.map Slot.name :=
    fun c hc => mem_names_foldl_add (.inr ⟨c, hc, rfl⟩)
  have htype : ∀ s ∈ (shape columns).slots,
      (lastSpelled? columns s.name).map Prod.snd = some s.type := by
    intro s hs
    rcases type_of_mem_foldl_add (shape_laid []) hs with h | ⟨-, h⟩
    · exact h
    · simp [shape, Shape.slots] at h
  rw [hslots] at hlaid hcolumn htype
  refine ⟨hslots, hlaid.names, hcolumn, ?_, ?_, ?_, dvd_align _⟩
  · intro s hs
    exact ⟨htype s hs, hlaid.sized s hs, hlaid.aligned s hs⟩
  · exact hlaid.apart.imp Slot.Apart.disjoint_bytes
  · intro s hs
    exact (hlaid.below s hs).trans (le_align _)

/-- Of two columns of one spelling the later one moves the slot behind what is placed between. -/
example : (slots [("IsOpen", .boolean), ("Title", .text), ("is_open", .integer),
    ("Flag", .boolean)]).map (fun s => (s.name, s.offset)) =
    [("is_open", 24), ("title", 8), ("flag", 32)] := by
  cbv

end Rulebook.Native
