import Komms.Cbor.Item
import Komms.Collections.Related

/-!
# The ciborium values and what the protocol relies on

`Value` is ciborium's dynamic value. Its integers have the range of a CBOR
integer, its byte strings carry the bound on their length, and its text is
valid UTF-8. `Value` has no `undefined`: both simple values 22 and 23 decode to
`null`.

The crate itself is a parameter. `Ciborium` holds its two functions and
`Ciborium.Documented` states what their documentation promises: the reader
inverts the canonical encoding, and the writer emits definite lengths, shortest
heads and map entries in the order given. `Ciborium.reference` is an executable
instance.
-/

namespace Komms

open Cbor

/-- The contents of a `Vec<u8>`, whose length is a 64-bit `usize`. -/
abbrev VecU8 := { b : Bytes // b.length < 2 ^ 64 }

/-- The bytes of a Rust string. -/
def utf8 (s : String) : Bytes := s.toByteArray.data.toList

/-- `str::from_utf8`. -/
def fromUtf8 (b : Bytes) : Option String := String.fromUTF8? ⟨⟨b⟩⟩

theorem utf8_of_fromUtf8 {b : Bytes} {s : String} (h : fromUtf8 b = some s) : utf8 s = b := by
  simp only [fromUtf8, String.fromUTF8?] at h
  split at h
  · obtain rfl := Option.some.inj h
    rfl
  · cases h

@[simp] theorem fromUtf8_utf8 (s : String) : fromUtf8 (utf8 s) = some s :=
  dif_pos s.isValidUTF8

theorem utf8_injective : Function.Injective utf8 := by
  intro s t h
  have hdecode := congrArg fromUtf8 h
  rw [fromUtf8_utf8, fromUtf8_utf8] at hdecode
  exact Option.some.inj hdecode

theorem utf8_eq_flatMap (s : String) : utf8 s = s.toList.flatMap String.utf8EncodeChar := by
  rw [← String.ofList_toList (s := s)]
  simp only [utf8, String.toByteArray_ofList, List.utf8Encode, List.toList_data_toByteArray,
    String.toList_ofList]

/-- An integer in the range of CBOR integers, `-2^64 ..= 2^64 - 1`. -/
inductive Integer where
  | unsigned (n : UInt64)
  /-- The integer `-1 - n`. -/
  | negative (n : UInt64)
  deriving DecidableEq, Repr

inductive Value where
  | integer (i : Integer)
  | bytes (b : VecU8)
  | float (bits : UInt64)
  | text (s : String)
  | bool (b : Bool)
  | null
  | tag (t : UInt64) (v : Value)
  | array (xs : List Value)
  | map (es : List (Value × Value))

namespace Value

@[induction_eliminator]
theorem induct {P : Value → Prop} (integer : ∀ i, P (.integer i)) (bytes : ∀ b, P (.bytes b))
    (float : ∀ bits, P (.float bits)) (text : ∀ s, P (.text s)) (bool : ∀ b, P (.bool b))
    (null : P .null) (tag : ∀ t v, P v → P (.tag t v))
    (array : ∀ xs, (∀ x ∈ xs, P x) → P (.array xs))
    (map : ∀ es, (∀ e ∈ es, P e.1 ∧ P e.2) → P (.map es)) (v : Value) : P v := by
  refine @Value.rec P (fun xs => ∀ x ∈ xs, P x) (fun es => ∀ e ∈ es, P e.1 ∧ P e.2)
    (fun e => P e.1 ∧ P e.2) integer bytes float text bool null tag array map ?_ ?_ ?_ ?_ ?_ v
  · simp
  · intro x xs hx hxs
    exact List.forall_mem_cons.mpr ⟨hx, hxs⟩
  · simp
  · intro e es he hes
    exact List.forall_mem_cons.mpr ⟨he, hes⟩
  · intro k v hk hv
    exact ⟨hk, hv⟩

mutual

/-- The item a value stands for; floats, tags and maps with other keys than
unsigned integers are outside the canonical grammar. -/
def toItem : Value → Option Item
  | .integer (.unsigned n) => some (.uint n.toNat)
  | .integer (.negative n) => some (.nint n.toNat)
  | .bytes b => some (.bytes b.1)
  | .text s => some (.text (utf8 s))
  | .bool b => some (.bool b)
  | .null => some .null
  | .array xs => (listToItem xs).map .array
  | .map es => (entriesToItem es).map .map
  | .float _ | .tag _ _ => none

def listToItem : List Value → Option (List Item)
  | [] => some []
  | x :: xs =>
    match toItem x, listToItem xs with
    | some i, some is => some (i :: is)
    | _, _ => none

def entriesToItem : List (Value × Value) → Option (List (Nat × Item))
  | [] => some []
  | (k, v) :: es =>
    match k, toItem v, entriesToItem es with
    | .integer (.unsigned n), some i, some is => some ((n.toNat, i) :: is)
    | _, _, _ => none

end

mutual

/-- The value an item decodes to; `none` for text that is not UTF-8. -/
def ofItem : Item → Option Value
  | .uint n => some (.integer (.unsigned (UInt64.ofNat n)))
  | .nint n => some (.integer (.negative (UInt64.ofNat n)))
  | .bytes b => if h : b.length < 2 ^ 64 then some (.bytes ⟨b, h⟩) else none
  | .text b => (fromUtf8 b).map .text
  | .bool b => some (.bool b)
  | .null | .undefined => some .null
  | .array xs => (listOfItem xs).map .array
  | .map es => (entriesOfItem es).map .map

def listOfItem : List Item → Option (List Value)
  | [] => some []
  | i :: is =>
    match ofItem i, listOfItem is with
    | some x, some xs => some (x :: xs)
    | _, _ => none

def entriesOfItem : List (Nat × Item) → Option (List (Value × Value))
  | [] => some []
  | (k, i) :: is =>
    match ofItem i, entriesOfItem is with
    | some v, some es => some ((.integer (.unsigned (UInt64.ofNat k)), v) :: es)
    | _, _ => none

end

mutual

/-- The serialisation of a value, with floats written by `float`. -/
def encode (float : UInt64 → Bytes) : Value → Bytes
  | .integer (.unsigned n) => head 0 n.toNat
  | .integer (.negative n) => head 1 n.toNat
  | .bytes b => head 2 b.1.length ++ b.1
  | .text s => head 3 (utf8 s).length ++ utf8 s
  | .array xs => head 4 xs.length ++ encodeList float xs
  | .map es => head 5 es.length ++ encodeEntries float es
  | .tag t v => head 6 t.toNat ++ encode float v
  | .bool b => head 7 (if b then 21 else 20)
  | .null => head 7 22
  | .float bits => float bits

def encodeList (float : UInt64 → Bytes) : List Value → Bytes
  | [] => []
  | x :: xs => encode float x ++ encodeList float xs

def encodeEntries (float : UInt64 → Bytes) : List (Value × Value) → Bytes
  | [] => []
  | (k, v) :: es => encode float k ++ (encode float v ++ encodeEntries float es)

end

mutual

/-- The lengths of strings and collections are 64-bit `usize` values, as those
of every value in memory are. -/
def fits : Value → Bool
  | .text s => (utf8 s).length < 2 ^ 64
  | .tag _ v => fits v
  | .array xs => xs.length < 2 ^ 64 && listFits xs
  | .map es => es.length < 2 ^ 64 && entriesFit es
  | .integer _ | .bytes _ | .float _ | .bool _ | .null => true

def listFits : List Value → Bool
  | [] => true
  | x :: xs => fits x && listFits xs

def entriesFit : List (Value × Value) → Bool
  | [] => true
  | (k, v) :: es => fits k && fits v && entriesFit es

end

def Fits (v : Value) : Prop := v.fits = true

instance (v : Value) : Decidable v.Fits := inferInstanceAs (Decidable (_ = true))

/-- The value belongs to the canonical profile: its item is canonical. -/
def Profile (v : Value) : Prop := ∃ i, v.toItem = some i ∧ i.Canonical

end Value

/-- The two functions of the `ciborium` crate that the protocol calls. -/
structure Ciborium where
  /-- `ciborium::de::from_reader`, failing with the text of its error. -/
  fromReader : Bytes → Except String Value
  /-- What `ciborium::ser::into_writer` appends to a `Vec<u8>`. -/
  intoWriter : Value → Bytes

namespace Ciborium

/-- Nesting that `from_reader` follows before it gives up. -/
def recursionLimit : Nat := 256

/-- A float is written as a half, single or double precision item. -/
def FloatHeads (float : UInt64 → Bytes) : Prop :=
  ∀ bits, ∃ initial rest, float bits = initial :: rest ∧ 0xF9 ≤ initial ∧ initial ≤ 0xFB

/-- What the documentation of the crate promises to its callers. -/
structure Documented (c : Ciborium) : Prop where
  /-- A canonical item is decoded, unless it holds text that is not UTF-8. -/
  reads : ∀ i : Item, i.Canonical → i.depth < recursionLimit →
    (c.fromReader i.encode).toOption = Value.ofItem i
  writes : ∃ float, FloatHeads float ∧ ∀ v : Value, v.Fits → c.intoWriter v = v.encode float

/-- An executable instance, which writes every float in double precision. -/
def reference : Ciborium where
  fromReader b :=
    match readItem recursionLimit b with
    | none => .error "Io"
    | some (i, _) =>
      match Value.ofItem i with
      | none => .error "Syntax"
      | some v => .ok v
  intoWriter := Value.encode fun bits => 0xFB :: beBytes 8 bits.toNat

theorem reference_documented : reference.Documented where
  reads i hi hdepth := by
    have hread := readItem_encode hi hdepth []
    rw [List.append_nil] at hread
    simp only [reference, hread]
    cases Value.ofItem i <;> rfl
  writes := ⟨_, fun _ => ⟨_, _, rfl, by decide, by decide⟩, fun _ _ => rfl⟩

end Ciborium

namespace Value

theorem listToItem_eq_some_iff {xs : List Value} {is : List Item} :
    listToItem xs = some is ↔ List.Forall₂ (fun x i => toItem x = some i) xs is := by
  apply List.eq_some_iff_forall₂
  · rfl
  · intro x xs is
    simp only [listToItem]
    cases toItem x <;> cases listToItem xs <;> simp

theorem toItem_eq_uint {k : Value} {n : Nat} :
    toItem k = some (.uint n) ↔ ∃ m : UInt64, k = .integer (.unsigned m) ∧ m.toNat = n := by
  constructor
  · intro h
    rw [toItem.eq_def] at h
    split at h <;> simp_all
  · rintro ⟨m, rfl, rfl⟩
    rfl

theorem entriesToItem_eq_some_iff {es : List (Value × Value)} {is : List (Nat × Item)} :
    entriesToItem es = some is ↔ List.Forall₂ (fun e i =>
      toItem e.1 = some (.uint i.1) ∧ toItem e.2 = some i.2) es is := by
  apply List.eq_some_iff_forall₂
  · rfl
  · rintro ⟨k, v⟩ es is
    simp only [entriesToItem, toItem_eq_uint]
    split
    · rename_i n i is' hv hes
      simp [hv, hes]
    · rename_i hnot
      refine iff_of_false (by simp) ?_
      rintro ⟨⟨n, i⟩, is', ⟨⟨m, rfl, -⟩, hv⟩, hes, -⟩
      exact hnot m i is' rfl hv hes

theorem listOfItem_eq_some_iff {is : List Item} {xs : List Value} :
    listOfItem is = some xs ↔ List.Forall₂ (fun i x => ofItem i = some x) is xs := by
  apply List.eq_some_iff_forall₂
  · rfl
  · intro i is xs
    simp only [listOfItem]
    cases ofItem i <;> cases listOfItem is <;> simp

theorem entriesOfItem_eq_some_iff {is : List (Nat × Item)} {es : List (Value × Value)} :
    entriesOfItem is = some es ↔ List.Forall₂ (fun i e =>
      e.1 = .integer (.unsigned (UInt64.ofNat i.1)) ∧ ofItem i.2 = some e.2) is es := by
  apply List.eq_some_iff_forall₂
  · rfl
  · rintro ⟨k, i⟩ is es
    simp only [entriesOfItem]
    cases ofItem i <;> cases entriesOfItem is <;> simp

/-- The item a value stands for decodes back to the value. -/
theorem ofItem_of_toItem {v : Value} {i : Item} (h : v.toItem = some i) :
    ofItem i = some v := by
  induction v generalizing i with
  | integer n =>
      cases n with
      | unsigned n =>
          obtain rfl := Option.some.inj h
          simp [ofItem]
      | negative n =>
          obtain rfl := Option.some.inj h
          simp [ofItem]
  | bytes b =>
      obtain rfl := Option.some.inj h
      exact dif_pos b.2
  | text s =>
      obtain rfl := Option.some.inj h
      simp [ofItem]
  | bool b =>
      obtain rfl := Option.some.inj h
      rfl
  | null =>
      obtain rfl := Option.some.inj h
      rfl
  | float bits => cases h
  | tag t v ih => cases h
  | array xs ih =>
      obtain ⟨is, his, rfl⟩ := Option.map_eq_some_iff.mp h
      have hall := List.forall₂_of_mem (fun x hx _ => ih x hx) (listToItem_eq_some_iff.mp his)
      rw [ofItem, listOfItem_eq_some_iff.mpr hall.flip]
      rfl
  | map es ih =>
      obtain ⟨is, his, rfl⟩ := Option.map_eq_some_iff.mp h
      have hall : List.Forall₂ (fun e i =>
          e.1 = .integer (.unsigned (UInt64.ofNat i.1)) ∧ ofItem i.2 = some e.2) es is := by
        apply List.forall₂_of_mem _ (entriesToItem_eq_some_iff.mp his)
        intro e he i hei
        have hkey : some (.integer (.unsigned (UInt64.ofNat i.1))) = some e.1 :=
          (ih e he).1 hei.1
        exact ⟨(Option.some.inj hkey).symm, (ih e he).2 hei.2⟩
      rw [ofItem, entriesOfItem_eq_some_iff.mpr hall.flip]
      rfl

theorem noUndefined_of_toItem {v : Value} {i : Item} (h : v.toItem = some i) :
    i.noUndefined = true := by
  induction v generalizing i with
  | integer n => cases n <;> (obtain rfl := Option.some.inj h; rfl)
  | bytes b | text s | bool b | null =>
      obtain rfl := Option.some.inj h
      rfl
  | float bits => cases h
  | tag t v ih => cases h
  | array xs ih =>
      obtain ⟨is, his, rfl⟩ := Option.map_eq_some_iff.mp h
      exact Item.noUndefined_array.mpr
        (List.forall_right_of_mem (fun x hx _ => ih x hx) (listToItem_eq_some_iff.mp his))
  | map es ih =>
      obtain ⟨is, his, rfl⟩ := Option.map_eq_some_iff.mp h
      exact Item.noUndefined_map.mpr
        (List.forall_right_of_mem (fun e he _ hei => (ih e he).2 hei.2)
          (entriesToItem_eq_some_iff.mp his))

/-- Decoding loses nothing of a canonical item but the difference between
`undefined` and `null`. -/
theorem toItem_of_ofItem {i : Item} {v : Value} (hi : i.Canonical)
    (hund : i.noUndefined = true) (h : ofItem i = some v) : v.toItem = some i := by
  induction i generalizing v with
  | uint n =>
      obtain rfl := Option.some.inj h
      rw [toItem, UInt64.toNat_ofNat_of_lt' (Item.canonical_uint.mp hi)]
  | nint n =>
      obtain rfl := Option.some.inj h
      rw [toItem, UInt64.toNat_ofNat_of_lt' (Item.canonical_nint.mp hi)]
  | bytes b =>
      rw [ofItem, dif_pos (Item.canonical_bytes.mp hi)] at h
      obtain rfl := Option.some.inj h
      rfl
  | text b =>
      obtain ⟨s, hs, rfl⟩ := Option.map_eq_some_iff.mp h
      rw [toItem, utf8_of_fromUtf8 hs]
  | bool b =>
      obtain rfl := Option.some.inj h
      rfl
  | null =>
      obtain rfl := Option.some.inj h
      rfl
  | undefined => cases hund
  | array is ih =>
      obtain ⟨xs, hxs, rfl⟩ := Option.map_eq_some_iff.mp h
      obtain ⟨-, his⟩ := Item.canonical_array.mp hi
      have hund := Item.noUndefined_array.mp hund
      have hall := List.forall₂_of_mem (fun i hmem _ => ih i hmem (his i hmem) (hund i hmem))
        (listOfItem_eq_some_iff.mp hxs)
      rw [toItem, listToItem_eq_some_iff.mpr hall.flip]
      rfl
  | map is ih =>
      obtain ⟨es, hes, rfl⟩ := Option.map_eq_some_iff.mp h
      obtain ⟨-, -, his⟩ := Item.canonical_map.mp hi
      have hund := Item.noUndefined_map.mp hund
      have hall : List.Forall₂ (fun i e =>
          toItem e.1 = some (.uint i.1) ∧ toItem e.2 = some i.2) is es := by
        apply List.forall₂_of_mem _ (entriesOfItem_eq_some_iff.mp hes)
        intro i hmem e hie
        refine ⟨?_, ih i hmem (his i hmem).2 (hund i hmem) hie.2⟩
        rw [hie.1, toItem, UInt64.toNat_ofNat_of_lt' (his i hmem).1]
      rw [toItem, entriesToItem_eq_some_iff.mpr hall.flip]
      rfl

/-- Writing a value writes its item. -/
theorem encode_of_toItem {float : UInt64 → Bytes} {v : Value} {i : Item}
    (h : v.toItem = some i) : v.encode float = i.encode := by
  induction v generalizing i with
  | integer n => cases n <;> (obtain rfl := Option.some.inj h; rfl)
  | bytes b | text s | bool b | null =>
      obtain rfl := Option.some.inj h
      rfl
  | float bits => cases h
  | tag t v ih => cases h
  | array xs ih =>
      obtain ⟨is, his, rfl⟩ := Option.map_eq_some_iff.mp h
      have hall := List.forall₂_of_mem (fun x hx _ => ih x hx) (listToItem_eq_some_iff.mp his)
      have hlist : encodeList float xs = Item.encodeList is := by
        clear h his ih
        induction hall with
        | nil => rfl
        | cons hx _ ih => rw [encodeList, Item.encodeList, hx, ih]
      rw [encode, Item.encode, hlist, hall.length_eq]
  | map es ih =>
      obtain ⟨is, his, rfl⟩ := Option.map_eq_some_iff.mp h
      have hall : List.Forall₂ (fun e (i : Nat × Item) =>
          e.1.encode float = head 0 i.1 ∧ e.2.encode float = i.2.encode) es is := by
        apply List.forall₂_of_mem _ (entriesToItem_eq_some_iff.mp his)
        intro e he i hei
        exact ⟨(ih e he).1 hei.1, (ih e he).2 hei.2⟩
      have hentries : encodeEntries float es = Item.encodeEntries is := by
        clear h his ih
        induction hall with
        | nil => rfl
        | cons he _ ih => rw [encodeEntries, Item.encodeEntries, he.1, he.2, ih]
      rw [encode, Item.encode, hentries, hall.length_eq]

@[simp] theorem fits_array {xs : List Value} :
    (array xs).Fits ↔ xs.length < 2 ^ 64 ∧ ∀ x ∈ xs, x.Fits := by
  have hlist : listFits xs = true ↔ ∀ x ∈ xs, x.Fits := by
    induction xs with
    | nil => simp [listFits]
    | cons x xs ih => simp [listFits, ih, Fits]
  simp [Fits, fits, hlist]

@[simp] theorem fits_map {es : List (Value × Value)} :
    (map es).Fits ↔ es.length < 2 ^ 64 ∧ ∀ e ∈ es, e.1.Fits ∧ e.2.Fits := by
  have hentries : entriesFit es = true ↔ ∀ e ∈ es, e.1.Fits ∧ e.2.Fits := by
    induction es with
    | nil => simp [entriesFit]
    | cons e es ih => simp [entriesFit, ih, Fits]
  simp [Fits, fits, hentries]

@[simp] theorem fits_text {s : String} : (text s).Fits ↔ (utf8 s).length < 2 ^ 64 := by
  simp [Fits, fits]

/-- What a canonical item decodes to has lengths that fit in 64 bits. -/
theorem fits_of_ofItem {i : Item} {v : Value} (hi : i.Canonical) (h : ofItem i = some v) :
    v.Fits := by
  induction i generalizing v with
  | uint n | nint n | bool b | null | undefined =>
      obtain rfl := Option.some.inj h
      rfl
  | bytes b =>
      rw [ofItem, dif_pos (Item.canonical_bytes.mp hi)] at h
      obtain rfl := Option.some.inj h
      rfl
  | text b =>
      obtain ⟨s, hs, rfl⟩ := Option.map_eq_some_iff.mp h
      rw [fits_text, utf8_of_fromUtf8 hs]
      exact Item.canonical_text.mp hi
  | array is ih =>
      obtain ⟨xs, hxs, rfl⟩ := Option.map_eq_some_iff.mp h
      obtain ⟨hlen, his⟩ := Item.canonical_array.mp hi
      have hall := listOfItem_eq_some_iff.mp hxs
      exact fits_array.mpr ⟨hall.length_eq ▸ hlen,
        List.forall_right_of_mem (fun i hmem _ => ih i hmem (his i hmem)) hall⟩
  | map is ih =>
      obtain ⟨es, hes, rfl⟩ := Option.map_eq_some_iff.mp h
      obtain ⟨hlen, -, his⟩ := Item.canonical_map.mp hi
      have hall := entriesOfItem_eq_some_iff.mp hes
      refine fits_map.mpr ⟨hall.length_eq ▸ hlen, List.forall_right_of_mem ?_ hall⟩
      intro i hmem e hie
      exact ⟨by rw [hie.1]; rfl, ih i hmem (his i hmem).2 hie.2⟩

theorem Profile.fits {v : Value} (h : v.Profile) : v.Fits := by
  obtain ⟨i, hv, hi⟩ := h
  exact fits_of_ofItem hi (ofItem_of_toItem hv)

/-- A float is no item: its initial byte is none of those the grammar has. -/
theorem readItem_float {float : UInt64 → Bytes} (hfloat : Ciborium.FloatHeads float)
    (bits : UInt64) (levels : Nat) (r : Bytes) : readItem levels (float bits ++ r) = none := by
  cases levels with
  | zero => rfl
  | succ levels =>
      obtain ⟨initial, rest, heq, hlow, hhigh⟩ := hfloat bits
      have hlow : 249 ≤ initial.toNat := UInt8.le_iff_toNat_le.mp hlow
      have hhigh : initial.toNat ≤ 251 := UInt8.le_iff_toNat_le.mp hhigh
      have hsimple : readSimple (initial :: (rest ++ r)) = none := by
        have hne (k : UInt8) (hk : k.toNat < 249) : initial ≠ k := by
          rintro rfl
          omega
        simp [readSimple, hne 0xF4 (by decide), hne 0xF5 (by decide), hne 0xF6 (by decide),
          hne 0xF7 (by decide)]
      rw [heq, List.cons_append, readItem]
      cases hhead : readHead (initial :: (rest ++ r)) with
      | none => rfl
      | some res =>
          obtain ⟨major, n, t⟩ := res
          have hmajor : major = 7 := by
            rw [readHead_cons_major hhead]
            omega
          subst hmajor
          exact hsimple

theorem forall₂_of_readMany {float : UInt64 → Bytes} {levels : Nat} {xs : List Value}
    (hread : ∀ x ∈ xs, ∀ {r i s}, readItem levels (x.encode float ++ r) = some (i, s) →
      x.toItem = some i ∧ r = s) {r s : Bytes} {is : List Item}
    (h : readMany (readItem levels) xs.length (encodeList float xs ++ r) = some (is, s)) :
    List.Forall₂ (fun x i => x.toItem = some i) xs is ∧ r = s := by
  induction xs generalizing is with
  | nil =>
      obtain ⟨rfl, rfl⟩ : [] = is ∧ r = s := by simpa [readMany, encodeList] using h
      exact ⟨.nil, rfl⟩
  | cons x xs ih =>
      obtain ⟨hx, hxs⟩ := List.forall_mem_cons.mp hread
      rw [List.length_cons, readMany, encodeList, List.append_assoc] at h
      obtain ⟨⟨i, b⟩, hfirst, h⟩ := Option.bind_eq_some_iff.mp h
      obtain ⟨⟨is', b'⟩, hrest, h⟩ := Option.bind_eq_some_iff.mp h
      obtain ⟨rfl, rfl⟩ : i :: is' = is ∧ b' = s := by simpa using h
      obtain ⟨hi, rfl⟩ := hx hfirst
      obtain ⟨his, rfl⟩ := ih hxs hrest
      exact ⟨.cons hi his, rfl⟩

theorem forall₂_of_readEntries {float : UInt64 → Bytes} {levels : Nat}
    {es : List (Value × Value)}
    (hkey : ∀ e ∈ es, ∀ {r i s}, readItem 1 (e.1.encode float ++ r) = some (i, s) →
      e.1.toItem = some i ∧ r = s)
    (hread : ∀ e ∈ es, ∀ {r i s}, readItem levels (e.2.encode float ++ r) = some (i, s) →
      e.2.toItem = some i ∧ r = s) {r s : Bytes} {is : List (Nat × Item)}
    (h : readMany (readEntry (readItem levels)) es.length (encodeEntries float es ++ r) =
      some (is, s)) :
    List.Forall₂ (fun e i => e.1.toItem = some (.uint i.1) ∧ e.2.toItem = some i.2) es is ∧
      r = s := by
  induction es generalizing is with
  | nil =>
      obtain ⟨rfl, rfl⟩ : [] = is ∧ r = s := by simpa [readMany, encodeEntries] using h
      exact ⟨.nil, rfl⟩
  | cons e es ih =>
      obtain ⟨hk, hks⟩ := List.forall_mem_cons.mp hkey
      obtain ⟨hv, hvs⟩ := List.forall_mem_cons.mp hread
      rw [List.length_cons, readMany, encodeEntries, List.append_assoc, List.append_assoc] at h
      obtain ⟨⟨i, b⟩, hfirst, h⟩ := Option.bind_eq_some_iff.mp h
      obtain ⟨⟨is', b'⟩, hrest, h⟩ := Option.bind_eq_some_iff.mp h
      obtain ⟨rfl, rfl⟩ : i :: is' = is ∧ b' = s := by simpa using h
      simp only [readEntry] at hfirst
      split at hfirst
      · rename_i k t hhead
        obtain ⟨⟨v, b''⟩, hvalue, hpair⟩ := Option.map_eq_some_iff.mp hfirst
        obtain ⟨rfl, rfl⟩ : (k, v) = i ∧ b'' = b := by simpa using hpair
        -- the key alone is an item too, so the hypothesis on keys applies to its head
        have hkitem : readItem 1 (e.1.encode float ++ (e.2.encode float ++
            (encodeEntries float es ++ r))) = some (.uint k, t) := by
          simp only [readItem, hhead]
        obtain ⟨hkeyitem, rfl⟩ := hk hkitem
        obtain ⟨hvitem, rfl⟩ := hv hvalue
        obtain ⟨his, rfl⟩ := ih hks hvs hrest
        exact ⟨.cons ⟨hkeyitem, hvitem⟩ his, rfl⟩
      · cases hfirst

theorem exists_succ_of_readItem {levels : Nat} {b : Bytes} {x : Item × Bytes}
    (h : readItem levels b = some x) : ∃ n, levels = n + 1 := by
  cases levels with
  | zero => cases h
  | succ n => exact ⟨n, rfl⟩

/-- Only the serialisation of a value of the grammar reads as an item. -/
theorem toItem_of_readItem {float : UInt64 → Bytes} (hfloat : Ciborium.FloatHeads float)
    {v : Value} (hv : v.Fits) {levels : Nat} {r s : Bytes} {i : Item}
    (h : readItem levels (v.encode float ++ r) = some (i, s)) : v.toItem = some i ∧ r = s := by
  induction v generalizing levels r s i with
  | float bits =>
      rw [encode, readItem_float hfloat] at h
      cases h
  | integer n =>
      obtain ⟨levels, rfl⟩ := exists_succ_of_readItem h
      cases n with
      | unsigned n =>
          have hhead := readHead_head (by decide : 0 < 8) n.toNat_lt r
          simpa [readItem, encode, hhead, toItem] using h
      | negative n =>
          have hhead := readHead_head (by decide : 1 < 8) n.toNat_lt r
          simpa [readItem, encode, hhead, toItem] using h
  | bytes b =>
      obtain ⟨levels, rfl⟩ := exists_succ_of_readItem h
      have hhead := readHead_head (by decide : 2 < 8) b.2 (b.1 ++ r)
      simpa [readItem, encode, hhead, toItem, readString_append] using h
  | text t =>
      obtain ⟨levels, rfl⟩ := exists_succ_of_readItem h
      have hhead := readHead_head (by decide : 3 < 8) (fits_text.mp hv) (utf8 t ++ r)
      simpa [readItem, encode, hhead, toItem, readString_append] using h
  | bool b =>
      obtain ⟨levels, rfl⟩ := exists_succ_of_readItem h
      cases b
      · obtain ⟨rfl, rfl⟩ : Item.bool false = i ∧ r = s :=
          Prod.mk.injEq _ _ _ _ ▸ Option.some.inj h
        exact ⟨rfl, rfl⟩
      · obtain ⟨rfl, rfl⟩ : Item.bool true = i ∧ r = s :=
          Prod.mk.injEq _ _ _ _ ▸ Option.some.inj h
        exact ⟨rfl, rfl⟩
  | null =>
      obtain ⟨levels, rfl⟩ := exists_succ_of_readItem h
      obtain ⟨rfl, rfl⟩ : Item.null = i ∧ r = s :=
        Prod.mk.injEq _ _ _ _ ▸ Option.some.inj h
      exact ⟨rfl, rfl⟩
  | tag t v ih =>
      obtain ⟨levels, rfl⟩ := exists_succ_of_readItem h
      have hhead := readHead_head (by decide : 6 < 8) t.toNat_lt (v.encode float ++ r)
      simp [readItem, encode, hhead] at h
  | array xs ih =>
      obtain ⟨levels, rfl⟩ := exists_succ_of_readItem h
      obtain ⟨hlen, hxs⟩ := fits_array.mp hv
      have hhead := readHead_head (by decide : 4 < 8) hlen (encodeList float xs ++ r)
      rw [encode, List.append_assoc, readItem, hhead] at h
      obtain ⟨⟨is, b⟩, hmany, hpair⟩ := Option.map_eq_some_iff.mp h
      obtain ⟨rfl, rfl⟩ : Item.array is = i ∧ b = s := by simpa using hpair
      obtain ⟨hall, rfl⟩ := forall₂_of_readMany (fun x hx {_ _ _} => ih x hx (hxs x hx)) hmany
      exact ⟨by rw [toItem, listToItem_eq_some_iff.mpr hall]; rfl, rfl⟩
  | map es ih =>
      obtain ⟨levels, rfl⟩ := exists_succ_of_readItem h
      obtain ⟨hlen, hes⟩ := fits_map.mp hv
      have hhead := readHead_head (by decide : 5 < 8) hlen (encodeEntries float es ++ r)
      rw [encode, List.append_assoc, readItem, hhead] at h
      obtain ⟨⟨is, b⟩, hmany, hpair⟩ := Option.map_eq_some_iff.mp h
      obtain ⟨rfl, rfl⟩ : Item.map is = i ∧ b = s := by simpa using hpair
      obtain ⟨hall, rfl⟩ := forall₂_of_readEntries
        (fun e he {_ _ _} => (ih e he).1 (hes e he).1)
        (fun e he {_ _ _} => (ih e he).2 (hes e he).2) hmany
      exact ⟨by rw [toItem, entriesToItem_eq_some_iff.mpr hall]; rfl, rfl⟩

/-- A value written as the bytes of a canonical item is that item. -/
theorem toItem_of_encode {float : UInt64 → Bytes} (hfloat : Ciborium.FloatHeads float)
    {v : Value} (hv : v.Fits) {i : Item} (hi : i.Canonical) (h : v.encode float = i.encode) :
    v.toItem = some i := by
  have hread := readItem_encode hi (Nat.lt_succ_self _) []
  rw [← h] at hread
  exact (toItem_of_readItem hfloat hv hread).1

end Value

end Komms
