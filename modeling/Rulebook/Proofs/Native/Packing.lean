/-
What packed bytes hold.

The fields of a record are written one after another into bytes that are zero at first. No two
fields share a byte, so each reads back as it was written.
-/

import Rulebook.Proofs.Native.Layout
import Rulebook.Proofs.Native.Machine
import Rulebook.Proofs.Outcome
import Rulebook.Proofs.Text

open List

namespace Rulebook.Native

open Text Packed

/-! ### Bytes of numbers -/

@[simp] theorem length_bytesOf (count n) : (bytesOf count n).length = count := by
  induction count generalizing n with
  | zero => rfl
  | succ count ih => rw [bytesOf, length_cons, ih]

theorem getElem?_bytesOf {count n i} (h : i < count) :
    (bytesOf count n)[i]? = some (n / 256 ^ i % 256).toUInt8 := by
  induction count generalizing n i with
  | zero => omega
  | succ count ih =>
    rw [bytesOf]
    cases i with
    | zero => simp
    | succ i =>
      rw [getElem?_cons_succ, ih (by omega), Nat.div_div_eq_div_mul, pow_succ']

/-! ### Writing bytes -/

section

variable {bytes new : List UInt8} {offset i : Nat}

theorem length_writeAt (h : offset + new.length ≤ bytes.length) :
    (writeAt bytes offset new).length = bytes.length := by
  simp only [writeAt, length_append, length_take, length_drop]
  omega

theorem getElem?_writeAt_inside (h : offset + new.length ≤ bytes.length) (hi : i < new.length) :
    (writeAt bytes offset new)[offset + i]? = new[i]? := by
  have htake : (bytes.take offset).length = offset := by
    simp only [length_take]
    omega
  rw [writeAt, append_assoc, getElem?_append_right (by omega), htake,
    Nat.add_sub_cancel_left, getElem?_append_left hi]

theorem getElem?_writeAt_outside (h : offset + new.length ≤ bytes.length)
    (hi : i < offset ∨ offset + new.length ≤ i) : (writeAt bytes offset new)[i]? = bytes[i]? := by
  have htake : (bytes.take offset).length = offset := by
    simp only [length_take]
    omega
  rw [writeAt]
  rcases hi with hi | hi
  · grind
  · grind [getElem?_append_right, length_append]

end

/-! ### Reading back -/

/-- The bytes of a packed record as compiled code sees them. -/
def Packed.image (p : Packed) : Image where
  size := p.bytes.length
  byte i := (p.bytes[i]?.getD 0).toBitVec

/-- The unsigned number in eight bytes of a record. -/
def Image.word (r : Image) (offset : Nat) : Nat := littleEndian (fun i => r.byte (offset + i)) 8

/-- The values that a field admits: null and those of its datatype, where a text can be encoded. -/
def Field.Admits (f : Field) : Value → Prop
  | .null => True
  | .bool _ => f.type = .boolean
  | .int _ => f.type = .integer
  | .str s => f.type = .text ∧ ∀ c ∈ s.toList, isStandIn c = false
  | _ => False

/-- **The bytes of a field stand for a value.** A text stands elsewhere: the field has the number
of its entry in the table of texts, counted from one, and the length of its encoding, both as words
of 64 bits. -/
inductive Field.Holds (f : Field) (p : Packed) : Value → Prop
  | null : (∀ i ∈ f.slot.bytes, p.bytes[i]? = some 0) → f.Holds p .null
  | bool {b : Bool} : f.type = .boolean → p.bytes[f.offset]? = some (if b then 1 else 0) →
      f.Holds p (.bool b)
  | int {n : Int} : f.type = .integer → p.image.number f.offset = n → f.Holds p (.int n)
  | str {s : String} {i : Nat} : f.type = .text → p.texts[i]? = some (f.name, s) →
      p.image.word f.offset = (i + 1) % 2 ^ 64 →
      p.image.word (f.offset + 8) = s.utf8ByteSize % 2 ^ 64 → f.Holds p (.str s)

section

variable {p : Packed} {offset n : Nat}

theorem Packed.word_of_bytes (h : ∀ i < 8, p.bytes[offset + i]? = (bytesOf 8 n)[i]?) :
    p.image.word offset = n % 2 ^ 64 := by
  have hbyte : ∀ i < 8, p.image.byte (offset + i) = BitVec.ofNat 8 (n / 256 ^ i) := by
    intro i hi
    have hget := h i hi
    rw [getElem?_bytesOf hi] at hget
    simp only [image, hget]
    apply BitVec.eq_of_toNat_eq
    simp
  calc p.image.word offset = littleEndian (fun i => BitVec.ofNat 8 (n / 256 ^ i)) 8 :=
        littleEndian_congr hbyte
    _ = n % 2 ^ 64 := littleEndian_ofNat n 8

theorem Packed.number_of_bytes {n} (hn : (Datum.number n).Fits)
    (h : ∀ i < 8, p.bytes[offset + i]? = (bytesOf 8 (n % 18446744073709551616).toNat)[i]?) :
    p.image.number offset = n := by
  obtain ⟨hlow, hhigh⟩ : -2 ^ 63 ≤ n ∧ n < 2 ^ 63 := hn
  have hword : p.image.word offset = (n % 18446744073709551616).toNat % 2 ^ 64 :=
    word_of_bytes h
  have hofInt : BitVec.ofNat 64 (p.image.word offset) = BitVec.ofInt 64 n := by
    apply BitVec.eq_of_toNat_eq
    rw [BitVec.toNat_ofNat, BitVec.toNat_ofInt]
    omega
  calc p.image.number offset = (BitVec.ofNat 64 (p.image.word offset)).toInt := rfl
    _ = n := by
      rw [hofInt, BitVec.toInt_ofInt, Int.bmod_def]
      omega

end

/-! ### Packing one field -/

/-- What packing a field leaves alone: the number of bytes, the bytes of other fields and the texts
in the table. -/
structure Packed.Grows (f : Field) (p p' : Packed) : Prop where
  length : p'.bytes.length = p.bytes.length
  outside : ∀ i ∉ f.slot.bytes, p'.bytes[i]? = p.bytes[i]?
  texts : p.texts <+: p'.texts

section

variable {record : Record} {p p' : Packed} {f : Field} {v : Value}

theorem Field.mem_bytes : i ∈ f.slot.bytes ↔ f.offset ≤ i ∧ i < f.offset + f.size :=
  Finset.mem_Ico

theorem Packed.grows_writeAt
    (hnew : new.length = f.size) (hin : f.offset + f.size ≤ p.bytes.length) :
    p.Grows f ⟨writeAt p.bytes f.offset new, p.texts ++ more⟩ where
  length := length_writeAt (by omega)
  outside i hi := by
    rw [Field.mem_bytes] at hi
    exact getElem?_writeAt_outside (by omega) (by omega)
  texts := prefix_append _ _

theorem encodable_eq_ok (h : ∀ c ∈ s.toList, isStandIn c = false) : encodable s = .ok s := by
  have hclean : s.toList.dropWhile (fun c => !isStandIn c) = [] := by
    rw [dropWhile_eq_nil_iff]
    intro c hc
    rw [h c hc]
    rfl
  rw [Text.encodable]
  simp [hclean]

theorem wordOf_eq_ok (h : (Datum.number n).Fits) :
    wordOf n = .ok (bytesOf 8 (n % 18446744073709551616).toNat) := by
  obtain ⟨hlow, hhigh⟩ : -2 ^ 63 ≤ n ∧ n < 2 ^ 63 := h
  rw [wordOf, if_pos]
  simp only [Bool.and_eq_true, decide_eq_true_eq]
  omega

theorem wordOf_eq_error (h : ¬ (Datum.number n).Fits) :
    wordOf n = .error ⟨.packing, "argument out of range"⟩ := by
  have h' : ¬ (-2 ^ 63 ≤ n ∧ n < 2 ^ 63) := h
  rw [wordOf, if_neg]
  simp only [Bool.and_eq_true, decide_eq_true_eq]
  omega

/-- **The step.** A value that a field admits is written into the field, which stands for it
afterwards; an integer has to fit. -/
theorem Packed.exists_add (hv : f.Admits (f.valueIn record))
    (hfits : ∀ n, f.valueIn record = .int n → (Datum.number n).Fits)
    (hsize : f.size = width f.type) (hin : f.offset + f.size ≤ p.bytes.length)
    (hzero : ∀ i ∈ f.slot.bytes, p.bytes[i]? = some 0) :
    ∃ p', p.add record f = .ok p' ∧ p.Grows f p' ∧ f.Holds p' (f.valueIn record) := by
  rw [add]
  cases hvalue : f.valueIn record with
  | null => exact ⟨p, rfl, ⟨rfl, fun _ _ => rfl, prefix_rfl⟩, .null hzero⟩
  | bool b =>
    rw [hvalue] at hv
    have htype : f.type = .boolean := hv
    rw [htype] at hsize
    have hone : f.size = 1 := hsize
    refine ⟨⟨writeAt p.bytes f.offset [if b then 1 else 0], p.texts ++ []⟩, ?_,
      grows_writeAt hone.symm hin, .bool htype ?_⟩
    · cases b <;> simp [Value.isNull, htype, Value.truthy, pure, Except.pure]
    · exact getElem?_writeAt_inside (i := 0) (by simpa [hone] using hin) (by simp)
  | int n =>
    rw [hvalue] at hv
    have htype : f.type = .integer := hv
    rw [htype] at hsize
    have height : f.size = 8 := hsize
    have hn := hfits n hvalue
    refine ⟨⟨writeAt p.bytes f.offset (bytesOf 8 (n % 18446744073709551616).toNat),
      p.texts ++ []⟩, ?_, grows_writeAt (by simp [height]) hin, .int htype ?_⟩
    · simp [Value.isNull, htype, Value.toInteger, wordOf_eq_ok hn]
    · refine number_of_bytes hn fun i hi => ?_
      exact getElem?_writeAt_inside (by simpa [height] using hin) (by simpa using hi)
  | str s =>
    rw [hvalue] at hv
    obtain ⟨htype, hclean⟩ : f.type = .text ∧ _ := hv
    rw [htype] at hsize
    have hsixteen : f.size = 16 := hsize
    let new := bytesOf 8 (p.texts ++ [(f.name, s)]).length ++ bytesOf 8 s.utf8ByteSize
    have hnew : new.length = f.size := by simp [new, hsixteen]
    have hinside : ∀ i < 16, (writeAt p.bytes f.offset new)[f.offset + i]? = new[i]? :=
      fun i hi => getElem?_writeAt_inside (by omega) (by omega)
    refine ⟨⟨writeAt p.bytes f.offset new, p.texts ++ [(f.name, s)]⟩, ?_,
      grows_writeAt hnew hin, .str (i := p.texts.length) htype (by simp) ?_ ?_⟩
    · simp [Value.isNull, htype, Value.text, encodable_eq_ok hclean, new]
    · have hlength : p.texts.length + 1 = (p.texts ++ [(f.name, s)]).length := by simp
      rw [hlength]
      refine word_of_bytes fun i hi => (hinside i (by omega)).trans ?_
      exact getElem?_append_left (by simpa using hi)
    · refine word_of_bytes fun i hi => ?_
      rw [Nat.add_assoc, hinside (8 + i) (by omega), getElem?_append_right (by simp)]
      simp
  | float x => rw [hvalue] at hv; exact hv.elim
  | nan mark => rw [hvalue] at hv; exact hv.elim
  | list items => rw [hvalue] at hv; exact hv.elim
  | dict entries => rw [hvalue] at hv; exact hv.elim

theorem Packed.add_eq_error (hv : f.Admits (f.valueIn record))
    (hvalue : f.valueIn record = .int n) (hn : ¬ (Datum.number n).Fits) :
    p.add record f = .error ⟨.packing, "argument out of range"⟩ := by
  rw [hvalue] at hv
  have htype : f.type = .integer := hv
  rw [add, hvalue]
  simp [Value.isNull, htype, Value.toInteger, wordOf_eq_error hn]

theorem Field.Holds.congr (h : f.Holds p v) (hsize : f.size = width f.type)
    (hbytes : ∀ i ∈ f.slot.bytes, p'.bytes[i]? = p.bytes[i]?) (htexts : p.texts <+: p'.texts) :
    f.Holds p' v := by
  have hbyte : ∀ i < f.size, p'.image.byte (f.offset + i) = p.image.byte (f.offset + i) := by
    intro i hi
    simp [image, hbytes (f.offset + i) (Field.mem_bytes.mpr (by omega))]
  cases h with
  | null hzero => exact .null fun i hi => (hbytes i hi).trans (hzero i hi)
  | bool htype hb =>
    rw [htype] at hsize
    have hone : f.size = 1 := hsize
    exact .bool htype ((hbytes _ (Field.mem_bytes.mpr (by omega))).trans hb)
  | int htype hn =>
    rw [htype] at hsize
    have height : f.size = 8 := hsize
    refine .int htype (Eq.trans ?_ hn)
    rw [Image.number, Image.number, littleEndian_congr fun i hi => hbyte i (by omega)]
  | str htype hentry hpointer hlength =>
    rw [htype] at hsize
    have hsixteen : f.size = 16 := hsize
    refine .str htype ?_ (Eq.trans ?_ hpointer) (Eq.trans ?_ hlength)
    · obtain ⟨more, hmore⟩ := htexts
      rw [← hmore, getElem?_append_left (List.getElem?_eq_some_iff.mp hentry).1, hentry]
    · exact littleEndian_congr fun i hi => hbyte i (by omega)
    · refine littleEndian_congr fun i hi => ?_
      rw [Nat.add_assoc]
      exact hbyte (8 + i) (by omega)

end

/-! ### Packing all fields -/

/-- **The invariant of packing.** The fields that are done stand for their values, and every byte
outside them is zero. -/
structure Packed.Filled (record : Record) (total : Nat) (done : List Field) (p : Packed) :
    Prop where
  length : p.bytes.length = total
  holds : ∀ f ∈ done, f.Holds p (f.valueIn record)
  zero : ∀ i < total, (∀ f ∈ done, i ∉ f.slot.bytes) → p.bytes[i]? = some 0

section

variable {record : Record} {total : Nat} {done fields : List Field} {p p' : Packed} {f : Field}

theorem Packed.filled_replicate : Filled record total [] ⟨replicate total 0, []⟩ where
  length := length_replicate
  holds := by simp
  zero i hi _ := by simp [hi]

theorem Packed.Filled.step (h : p.Filled record total done)
    (hsized : ∀ g ∈ done, g.size = width g.type) (hapart : ∀ g ∈ done, g.slot.Apart f.slot)
    (hgrows : p.Grows f p') (hf : f.Holds p' (f.valueIn record)) :
    p'.Filled record total (done ++ [f]) where
  length := hgrows.length.trans h.length
  holds g hg := by
    rcases mem_append.mp hg with hg | hg
    · refine (h.holds g hg).congr (hsized g hg) (fun i hi => hgrows.outside i fun hif => ?_)
        hgrows.texts
      exact Finset.disjoint_left.mp (hapart g hg).disjoint_bytes hi hif
    · obtain rfl := mem_singleton.mp hg
      exact hf
  zero i hi houtside := by
    rw [hgrows.outside i (houtside f (by simp))]
    exact h.zero i hi fun g hg => houtside g (by simp [hg])

theorem Packed.Filled.zero_of_apart (h : p.Filled record total done)
    (hapart : ∀ g ∈ done, g.slot.Apart f.slot) (hin : f.offset + f.size ≤ total) :
    ∀ i ∈ f.slot.bytes, p.bytes[i]? = some 0 := by
  intro i hi
  have hlt : i < total := by
    rw [Field.mem_bytes] at hi
    omega
  refine h.zero i hlt fun g hg hig => ?_
  exact Finset.disjoint_left.mp (hapart g hg).disjoint_bytes hig hi

/-- **The run.** When all integers fit, the fields are packed one after another. -/
theorem Packed.Filled.run (h : p.Filled record total done)
    (hsized : ∀ g ∈ done ++ fields, g.size = width g.type)
    (hin : ∀ g ∈ fields, g.offset + g.size ≤ total)
    (hapart : (done ++ fields).Pairwise fun g g' => g.slot.Apart g'.slot)
    (hadmits : ∀ g ∈ fields, g.Admits (g.valueIn record))
    (hfits : ∀ g ∈ fields, ∀ n, g.valueIn record = .int n → (Datum.number n).Fits) :
    ∃ p', fields.foldlM (add record) p = .ok p' ∧
      p'.Filled record total (done ++ fields) := by
  induction fields generalizing done p with
  | nil => exact ⟨p, rfl, by simpa using h⟩
  | cons f fields ih =>
    have hdone : ∀ g ∈ done, g.slot.Apart f.slot := fun g hg =>
      (pairwise_append.mp hapart).2.2 g hg f (.head _)
    have hfin : f.offset + f.size ≤ total := hin f (.head _)
    obtain ⟨p1, hadd, hgrows, hholds⟩ := exists_add (p := p)
      (hadmits f mem_cons_self) (hfits f mem_cons_self) (hsized f (by simp))
      (by rw [h.length]; exact hfin) (h.zero_of_apart hdone hfin)
    have hsizedDone : ∀ g ∈ done, g.size = width g.type := fun g hg => hsized g (by simp [hg])
    have hnext := h.step hsizedDone hdone hgrows hholds
    obtain ⟨p2, hrun, hfilled⟩ := ih hnext (by simpa using hsized)
      (fun g hg => hin g (mem_cons_of_mem f hg)) (by simpa using hapart)
      (fun g hg => hadmits g (mem_cons_of_mem f hg))
      (fun g hg => hfits g (mem_cons_of_mem f hg))
    refine ⟨p2, ?_, by simpa using hfilled⟩
    rw [foldlM_cons, hadd]
    exact hrun

theorem Packed.foldlM_add_ne_ok (hadmits : ∀ g ∈ fields, g.Admits (g.valueIn record))
    (hf : f ∈ fields) (hvalue : f.valueIn record = .int n) (hn : ¬ (Datum.number n).Fits) :
    fields.foldlM (add record) p ≠ .ok p' := by
  induction fields generalizing p with
  | nil => simp at hf
  | cons g fields ih =>
    intro hok
    obtain ⟨p1, hadd, hrest⟩ := bind_eq_ok_iff.mp hok
    rcases mem_cons.mp hf with rfl | hf
    · grind [add_eq_error]
    · exact ih (fun g' hg' => hadmits g' (mem_cons_of_mem g hg')) hf hrest

end

/-! ### Fields and their columns -/

/-- The value that a record has for keys in the order of preference: that of the first key that is
present, be it null, and null when none is present. -/
inductive FirstPresent (record : Record) : List String → Value → Prop
  | none : FirstPresent record [] .null
  | here {key : String} {keys : List String} {v : Value} :
      record.get? key = some v → FirstPresent record (key :: keys) v
  | later {key : String} {keys : List String} {v : Value} :
      record.get? key = none → FirstPresent record keys v → FirstPresent record (key :: keys) v

theorem firstPresent_find? (record keys) :
    FirstPresent record keys (((keys.find? record.has).map record.get).getD .null) := by
  induction keys with
  | nil => exact .none
  | cons key keys ih =>
    cases hget : record.get? key with
    | none =>
      have hhas : record.has key = false := by simp [Record.has, hget]
      rw [find?_cons_of_neg (by simp [hhas])]
      exact .later hget ih
    | some v =>
      have hhas : record.has key = true := by simp [Record.has, hget]
      rw [find?_cons_of_pos hhas]
      refine .here ?_
      simp [Record.get, Record.getD, hget]

theorem toList_replace_underscore (s : String) :
    replace s "_" "" = .ofList (s.toList.filter (· ≠ '_')) := by
  exact congrArg String.ofList (replaceChars_singleton_nil '_' s.toList)

theorem Shape.map_name_fields (s : Shape) : s.fields.map Field.name = s.slots.map Slot.name := by
  rw [slots, map_map]
  rfl

theorem Shape.column_of_mem_foldl_add (h : Laid s.stop s.slots)
    (hf : f ∈ (columns.foldl Shape.add s).fields) :
    (∃ c, lastSpelled? columns f.name = some c ∧ f.type = c.2 ∧ f.key = Names.key c.1) ∨
      lastSpelled? columns f.name = none ∧ f ∈ s.fields := by
  induction columns generalizing s with
  | nil => exact .inr ⟨rfl, hf⟩
  | cons c columns ih =>
    have hadd : Laid (s.add c).stop (s.add c).slots := by
      rw [slots_add, stop_add]
      exact h.put (Names.snake c.1) c.2
    rw [lastSpelled?_cons]
    rcases ih hadd hf with ⟨d, hd, hd'⟩ | ⟨hnone, hmem⟩
    · exact .inl ⟨d, by simp [hd], hd'⟩
    · rw [hnone]
      have hnames := hadd.names
      rw [← map_name_fields] at hnames
      -- of two fields with one name only the new one is left
      by_cases hname : Names.snake c.1 = f.name
      · have hnew := inj_on_of_nodup_map hnames mem_putBy_self hmem hname
        exact .inl ⟨c, if_pos hname, by rw [← hnew], by rw [← hnew]⟩
      · refine .inr ⟨if_neg hname, (mem_of_mem_putBy hmem).resolve_left fun hnew => ?_⟩
        exact hname (by rw [hnew])

theorem Field.firstPresent_valueIn (hf : f ∈ (shape columns).fields) (record) :
    ∃ c, lastSpelled? columns f.name = some c ∧ f.type = c.2 ∧
      FirstPresent record [Names.key c.1, Names.snake c.1,
        .ofList ((Names.key c.1).toList.filter (· ≠ '_'))] (f.valueIn record) := by
  rcases Shape.column_of_mem_foldl_add (shape_laid []) hf with ⟨c, hc, htype, hkey⟩ | ⟨-, h⟩
  · have hname : Names.snake c.1 = f.name := by
      have hfound := find?_some hc
      simpa using hfound
    refine ⟨c, hc, htype, ?_⟩
    rw [← toList_replace_underscore, hname, ← hkey]
    exact firstPresent_find? record f.keys
  · simp [shape] at h

/-! ### Packing a record -/

/-- **Packing is faithful.** A record whose values are null or of the declared datatypes can be
packed exactly when its integers fit into eight bytes with sign. Each field then stands for its
value, which is the entry of the first key present of the three a column has, and all other bytes
are zero. -/
theorem pack_reads_back (columns : List (String × Datatype)) (record : Record)
    (h : ∀ f ∈ (shape columns).fields, f.Admits (f.valueIn record)) :
    ((∃ p, pack (shape columns) record = .ok p) ↔
      ∀ f ∈ (shape columns).fields, ∀ n, f.valueIn record = .int n → -2 ^ 63 ≤ n ∧ n < 2 ^ 63) ∧
    (∀ p, pack (shape columns) record = .ok p → p.bytes.length = (shape columns).total ∧
      (∀ f ∈ (shape columns).fields, f.Holds p (f.valueIn record)) ∧
      ∀ i < (shape columns).total, (∀ f ∈ (shape columns).fields, i ∉ f.slot.bytes) →
        p.bytes[i]? = some 0) ∧
    (∀ c ∈ columns, ∃ f ∈ (shape columns).fields, f.name = Names.snake c.1) ∧
    ∀ f ∈ (shape columns).fields, ∃ c, lastSpelled? columns f.name = some c ∧ f.type = c.2 ∧
      FirstPresent record [Names.key c.1, Names.snake c.1,
        .ofList ((Names.key c.1).toList.filter (· ≠ '_'))] (f.valueIn record) := by
  have hlaid := shape_laid columns
  have hslot : ∀ f ∈ (shape columns).fields, f.slot ∈ (shape columns).slots := fun f hf =>
    mem_map_of_mem hf
  have hfilled : (∀ f ∈ (shape columns).fields, ∀ n, f.valueIn record = .int n →
      -2 ^ 63 ≤ n ∧ n < 2 ^ 63) → ∃ p, pack (shape columns) record = .ok p ∧
      p.Filled record (shape columns).total (shape columns).fields := by
    intro hfits
    refine filled_replicate.run ?_ ?_ ?_ h hfits
    · exact fun f hf => hlaid.sized f.slot (hslot f hf)
    · exact fun f hf => (hlaid.below f.slot (hslot f hf)).trans (le_align _)
    · exact pairwise_map.mp hlaid.apart
  have hfits : ∀ p, pack (shape columns) record = .ok p → ∀ f ∈ (shape columns).fields, ∀ n,
      f.valueIn record = .int n → -2 ^ 63 ≤ n ∧ n < 2 ^ 63 := by
    intro p hp f hf n hvalue
    by_contra hn
    exact foldlM_add_ne_ok h hf hvalue hn hp
  refine ⟨⟨fun ⟨p, hp⟩ => hfits p hp, fun hn => ?_⟩, fun p hp => ?_, fun c hc => ?_,
    fun f hf => Field.firstPresent_valueIn hf record⟩
  · obtain ⟨p, hp, -⟩ := hfilled hn
    exact ⟨p, hp⟩
  · obtain ⟨p', hp', hlength, hholds, hzero⟩ := hfilled (hfits p hp)
    cases hp.symm.trans hp'
    exact ⟨hlength, hholds, hzero⟩
  · have hname := Shape.mem_names_foldl_add (s := ⟨[], 0⟩) (.inr ⟨c, hc, rfl⟩)
    rw [← Shape.map_name_fields] at hname
    obtain ⟨f, hf, hname⟩ := mem_map.mp hname
    exact ⟨f, hf, hname⟩

def meterColumns : List (String × Datatype) :=
  [("Is_Open", .boolean), ("Low Mark", .integer), ("UnitName", .text), ("Note_A", .text)]

/-- A record of a meter: each value stands under another kind of key, the integer is the lowest that
fits, and a null under the first key hides a text under the last. -/
def meterRecord : Record :=
  [("isopen", .bool true), ("low_mark", .int (-9223372036854775808)), ("unit_name", .str "µW"),
    ("note_a", .null), ("notea", .str "unread")]

theorem fields_meterColumns : (shape meterColumns).fields =
    [⟨"is__open", .boolean, 0, 1, "is_open"⟩, ⟨"low _mark", .integer, 8, 8, "low_mark"⟩,
      ⟨"unit_name", .text, 16, 16, "unitname"⟩, ⟨"note_a", .text, 32, 16, "note_a"⟩] := by
  decide +kernel

theorem valueIn_meterRecord : (shape meterColumns).fields.map (·.valueIn meterRecord) =
    [.bool true, .int (-9223372036854775808), .str "µW", .null] := by
  cbv

theorem admits_meterRecord :
    ∀ f ∈ (shape meterColumns).fields, f.Admits (f.valueIn meterRecord) := by
  have hvalues := valueIn_meterRecord
  rw [fields_meterColumns] at hvalues ⊢
  simp only [forall_mem_cons, not_mem_nil, false_imp_iff, implies_true, and_true]
  refine ⟨rfl, rfl, ⟨rfl, fun c hc => ?_⟩, trivial⟩
  have hchars : c = 'µ' ∨ c = 'W' := by simpa using hc
  rcases hchars with rfl | rfl <;> decide

theorem pack_reads_back_meterRecord :
    (∀ f ∈ (shape meterColumns).fields, f.Admits (f.valueIn meterRecord)) ∧
      ∃ p, pack (shape meterColumns) meterRecord = .ok p ∧ p.bytes.length = 48 ∧
        Field.Holds ⟨"low _mark", .integer, 8, 8, "low_mark"⟩ p (.int (-2 ^ 63)) ∧
        Field.Holds ⟨"unit_name", .text, 16, 16, "unitname"⟩ p (.str "µW") ∧
        Field.Holds ⟨"note_a", .text, 32, 16, "note_a"⟩ p .null ∧ p.bytes[1]? = some 0 := by
  obtain ⟨hsucceeds, hreads, -, -⟩ := pack_reads_back meterColumns meterRecord admits_meterRecord
  have hvalues := valueIn_meterRecord
  rw [fields_meterColumns] at hsucceeds hreads hvalues
  simp only [map_cons, map_nil, cons.injEq, and_true] at hvalues
  simp only [forall_mem_cons, not_mem_nil, false_imp_iff, implies_true, and_true,
    hvalues, reduceCtorEq, Value.int.injEq, forall_eq', true_and] at hsucceeds hreads
  obtain ⟨p, hp⟩ := hsucceeds.mpr (by decide)
  obtain ⟨hlength, ⟨-, hint, htext, hnull⟩, hzero⟩ := hreads p hp
  have htotal : (shape meterColumns).total = 48 := by decide +kernel
  refine ⟨admits_meterRecord, p, hp, hlength.trans htotal, hint, htext, hnull, ?_⟩
  exact hzero 1 (by omega) (by decide)

end Rulebook.Native
