import Komms.Cbor.Head

/-!
# Canonical CBOR items

`Item` is the grammar of a deterministic CBOR profile: unsigned and negative
integers, byte and text strings, arrays, maps keyed by unsigned integers, and
the four simple values `false`, `true`, `null` and `undefined`. Text is kept as
bytes: whether it is valid UTF-8 is a question for a decoder of strings.

`encode` writes definite lengths and shortest heads. `readItem` reads it back
from any byte string that starts with it (`readItem_encode`), so that no
encoding is a proper prefix of another one (`encode_prefix_free`).
-/

namespace Cbor

inductive Item where
  | uint (n : Nat)
  /-- The integer `-1 - n`. -/
  | nint (n : Nat)
  | bytes (b : Bytes)
  | text (b : Bytes)
  | array (xs : List Item)
  | map (es : List (Nat × Item))
  | bool (b : Bool)
  | null
  | undefined
  deriving Repr

namespace Item

/-- Induction that gives the hypothesis for every element of an array and every
value of a map. -/
@[induction_eliminator]
theorem induct {P : Item → Prop} (uint : ∀ n, P (.uint n)) (nint : ∀ n, P (.nint n))
    (bytes : ∀ b, P (.bytes b)) (text : ∀ b, P (.text b))
    (array : ∀ xs, (∀ x ∈ xs, P x) → P (.array xs))
    (map : ∀ es, (∀ e ∈ es, P e.2) → P (.map es))
    (bool : ∀ b, P (.bool b)) (null : P .null) (undefined : P .undefined) (i : Item) : P i := by
  refine @Item.rec P (fun xs => ∀ x ∈ xs, P x) (fun es => ∀ e ∈ es, P e.2) (fun e => P e.2)
    uint nint bytes text array map bool null undefined ?_ ?_ ?_ ?_ ?_ i
  · simp
  · intro x xs hx hxs
    exact List.forall_mem_cons.mpr ⟨hx, hxs⟩
  · simp
  · intro e es he hes
    exact List.forall_mem_cons.mpr ⟨he, hes⟩
  · intro _ _ h
    exact h

mutual

/-- The definite-length, shortest-form encoding. -/
def encode : Item → Bytes
  | .uint n => head 0 n
  | .nint n => head 1 n
  | .bytes b => head 2 b.length ++ b
  | .text b => head 3 b.length ++ b
  | .array xs => head 4 xs.length ++ encodeList xs
  | .map es => head 5 es.length ++ encodeEntries es
  | .bool b => head 7 (if b then 21 else 20)
  | .null => head 7 22
  | .undefined => head 7 23

def encodeList : List Item → Bytes
  | [] => []
  | x :: xs => encode x ++ encodeList xs

def encodeEntries : List (Nat × Item) → Bytes
  | [] => []
  | (k, v) :: es => head 0 k ++ (encode v ++ encodeEntries es)

end

mutual

/-- Arguments and lengths fit in 64 bits and map keys are strictly ascending. -/
def isCanonical : Item → Bool
  | .uint n | .nint n => n < 2 ^ 64
  | .bytes b | .text b => b.length < 2 ^ 64
  | .array xs => xs.length < 2 ^ 64 && listCanonical xs
  | .map es => es.length < 2 ^ 64 && es.Pairwise (fun e e' => e.1 < e'.1) && entriesCanonical es
  | .bool _ | .null | .undefined => true

def listCanonical : List Item → Bool
  | [] => true
  | x :: xs => isCanonical x && listCanonical xs

def entriesCanonical : List (Nat × Item) → Bool
  | [] => true
  | (k, v) :: es => k < 2 ^ 64 && isCanonical v && entriesCanonical es

end

/-- The item belongs to the canonical profile. -/
def Canonical (i : Item) : Prop := i.isCanonical = true

instance (i : Item) : Decidable i.Canonical := inferInstanceAs (Decidable (_ = true))

mutual

/-- Number of levels below the root. -/
def depth : Item → Nat
  | .array xs => listDepth xs
  | .map es => entriesDepth es
  | .uint _ | .nint _ | .bytes _ | .text _ | .bool _ | .null | .undefined => 0

def listDepth : List Item → Nat
  | [] => 0
  | x :: xs => max (depth x + 1) (listDepth xs)

def entriesDepth : List (Nat × Item) → Nat
  | [] => 0
  | (_, v) :: es => max (depth v + 1) (entriesDepth es)

end

mutual

/-- No `undefined` occurs anywhere in the item. -/
def noUndefined : Item → Bool
  | .undefined => false
  | .array xs => listNoUndefined xs
  | .map es => entriesNoUndefined es
  | .uint _ | .nint _ | .bytes _ | .text _ | .bool _ | .null => true

def listNoUndefined : List Item → Bool
  | [] => true
  | x :: xs => noUndefined x && listNoUndefined xs

def entriesNoUndefined : List (Nat × Item) → Bool
  | [] => true
  | (_, v) :: es => noUndefined v && entriesNoUndefined es

end

variable {b : Bytes} {n d : Nat} {xs : List Item} {es : List (Nat × Item)}

@[simp] theorem canonical_uint : (Item.uint n).Canonical ↔ n < 2 ^ 64 := by
  simp [Canonical, isCanonical]

@[simp] theorem canonical_nint : (Item.nint n).Canonical ↔ n < 2 ^ 64 := by
  simp [Canonical, isCanonical]

@[simp] theorem canonical_bytes : (Item.bytes b).Canonical ↔ b.length < 2 ^ 64 := by
  simp [Canonical, isCanonical]

@[simp] theorem canonical_text : (Item.text b).Canonical ↔ b.length < 2 ^ 64 := by
  simp [Canonical, isCanonical]

@[simp] theorem canonical_bool (c : Bool) : (Item.bool c).Canonical := rfl

@[simp] theorem canonical_array :
    (Item.array xs).Canonical ↔ xs.length < 2 ^ 64 ∧ ∀ x ∈ xs, x.Canonical := by
  have hlist : listCanonical xs = true ↔ ∀ x ∈ xs, x.Canonical := by
    induction xs with
    | nil => simp [listCanonical]
    | cons x xs ih => simp [listCanonical, ih, Canonical]
  simp [Canonical, isCanonical, hlist]

@[simp] theorem canonical_map :
    (Item.map es).Canonical ↔ es.length < 2 ^ 64 ∧ es.Pairwise (fun e e' => e.1 < e'.1) ∧
      ∀ e ∈ es, e.1 < 2 ^ 64 ∧ e.2.Canonical := by
  have hentries : entriesCanonical es = true ↔ ∀ e ∈ es, e.1 < 2 ^ 64 ∧ e.2.Canonical := by
    induction es with
    | nil => simp [entriesCanonical]
    | cons e es ih => simp [entriesCanonical, ih, Canonical]
  simp [Canonical, isCanonical, hentries, and_assoc]

theorem depth_array_lt : (Item.array xs).depth < d + 1 ↔ ∀ x ∈ xs, x.depth < d := by
  simp only [depth]
  induction xs with
  | nil => simp [listDepth]
  | cons x xs ih =>
      simp only [listDepth, Nat.max_lt, Nat.add_lt_add_iff_right, ih, List.forall_mem_cons]

theorem depth_map_lt : (Item.map es).depth < d + 1 ↔ ∀ e ∈ es, e.2.depth < d := by
  simp only [depth]
  induction es with
  | nil => simp [entriesDepth]
  | cons e es ih =>
      simp only [entriesDepth, Nat.max_lt, Nat.add_lt_add_iff_right, ih, List.forall_mem_cons]

@[simp] theorem noUndefined_array :
    (Item.array xs).noUndefined = true ↔ ∀ x ∈ xs, x.noUndefined = true := by
  simp only [noUndefined]
  induction xs with
  | nil => simp [listNoUndefined]
  | cons x xs ih => simp [listNoUndefined, ih]

@[simp] theorem noUndefined_map :
    (Item.map es).noUndefined = true ↔ ∀ e ∈ es, e.2.noUndefined = true := by
  simp only [noUndefined]
  induction es with
  | nil => simp [entriesNoUndefined]
  | cons e es ih => simp [entriesNoUndefined, ih]

/-- Every encoding starts with a head. -/
theorem encode_eq_head (i : Item) :
    ∃ major n rest, major < 8 ∧ i.encode = head major n ++ rest := by
  cases i with
  | uint n => exact ⟨0, n, [], by decide, by simp [encode]⟩
  | nint n => exact ⟨1, n, [], by decide, by simp [encode]⟩
  | bytes b => exact ⟨2, b.length, b, by decide, by simp [encode]⟩
  | text b => exact ⟨3, b.length, b, by decide, by simp [encode]⟩
  | array xs => exact ⟨4, xs.length, encodeList xs, by decide, by simp [encode]⟩
  | map es => exact ⟨5, es.length, encodeEntries es, by decide, by simp [encode]⟩
  | bool b => exact ⟨7, if b then 21 else 20, [], by decide, by simp [encode]⟩
  | null => exact ⟨7, 22, [], by decide, by simp [encode]⟩
  | undefined => exact ⟨7, 23, [], by decide, by simp [encode]⟩

theorem encode_length_pos (i : Item) : 0 < i.encode.length := by
  cases i <;> simp [encode, head]

theorem length_le_encodeList (xs : List Item) : xs.length ≤ (encodeList xs).length := by
  induction xs with
  | nil => exact Nat.le_refl 0
  | cons x xs ih =>
      have hpos := x.encode_length_pos
      rw [encodeList, List.length_cons, List.length_append]
      omega

theorem length_le_encodeEntries (es : List (Nat × Item)) :
    es.length ≤ (encodeEntries es).length := by
  induction es with
  | nil => exact Nat.le_refl 0
  | cons e es ih =>
      have hpos := head_length_pos 0 e.1
      rw [encodeEntries, List.length_cons, List.length_append, List.length_append]
      omega

/-- Strings and containers have as many bytes after their head as the head declares: a
length is counted in bytes, and every counted element has a byte. -/
theorem exists_head_content {i : Item} (hi : i.Canonical) :
    ∃ major n rest, major < 8 ∧ n < 2 ^ 64 ∧ i.encode = head major n ++ rest ∧
      (2 ≤ major → major ≤ 5 → n ≤ rest.length) := by
  cases i with
  | uint n => exact ⟨0, n, [], by decide, canonical_uint.mp hi, by simp [encode], by omega⟩
  | nint n => exact ⟨1, n, [], by decide, canonical_nint.mp hi, by simp [encode], by omega⟩
  | bytes b => exact ⟨2, b.length, b, by decide, canonical_bytes.mp hi, rfl, fun _ _ => le_rfl⟩
  | text b => exact ⟨3, b.length, b, by decide, canonical_text.mp hi, rfl, fun _ _ => le_rfl⟩
  | array xs =>
      exact ⟨4, xs.length, encodeList xs, by decide, (canonical_array.mp hi).1, rfl,
        fun _ _ => length_le_encodeList xs⟩
  | map es =>
      exact ⟨5, es.length, encodeEntries es, by decide, (canonical_map.mp hi).1, rfl,
        fun _ _ => length_le_encodeEntries es⟩
  | bool b =>
      exact ⟨7, if b then 21 else 20, [], by decide, by cases b <;> decide, by simp [encode],
        by omega⟩
  | null => exact ⟨7, 22, [], by decide, by decide, by simp [encode], by omega⟩
  | undefined => exact ⟨7, 23, [], by decide, by decide, by simp [encode], by omega⟩

end Item

/-- Read `count` elements with `read`. -/
def readMany {α : Type} (read : Bytes → Option (α × Bytes)) :
    Nat → Bytes → Option (List α × Bytes)
  | 0, b => some ([], b)
  | count + 1, b => do
    let (x, b) ← read b
    let (xs, b) ← readMany read count b
    return (x :: xs, b)

/-- Read an unsigned key and then a value. -/
def readEntry (read : Bytes → Option (Item × Bytes)) (b : Bytes) : Option ((Nat × Item) × Bytes) :=
  match readHead b with
  | some (0, k, rest) => (read rest).map fun (v, rest) => ((k, v), rest)
  | _ => none

/-- Read a string of `n` bytes. -/
def readString (n : Nat) (b : Bytes) : Option (Bytes × Bytes) :=
  if n ≤ b.length then some (b.take n, b.drop n) else none

/-- Read one of the four simple values. -/
def readSimple : Bytes → Option (Item × Bytes)
  | [] => none
  | initial :: rest =>
    if initial = 0xF4 then some (.bool false, rest)
    else if initial = 0xF5 then some (.bool true, rest)
    else if initial = 0xF6 then some (.null, rest)
    else if initial = 0xF7 then some (.undefined, rest)
    else none

/-- Read one item with fewer than `levels` levels below its root, and leave the
bytes after it. Heads may be longer than necessary and map keys in any order. -/
def readItem : Nat → Bytes → Option (Item × Bytes)
  | 0, _ => none
  | levels + 1, b =>
    match readHead b with
    | some (0, n, rest) => some (.uint n, rest)
    | some (1, n, rest) => some (.nint n, rest)
    | some (2, n, rest) => (readString n rest).map fun (s, rest) => (.bytes s, rest)
    | some (3, n, rest) => (readString n rest).map fun (s, rest) => (.text s, rest)
    | some (4, n, rest) =>
      (readMany (readItem levels) n rest).map fun (xs, rest) => (.array xs, rest)
    | some (5, n, rest) =>
      (readMany (readEntry (readItem levels)) n rest).map fun (es, rest) => (.map es, rest)
    | some (7, _, _) => readSimple b
    | _ => none

theorem readString_append (s rest : Bytes) :
    readString s.length (s ++ rest) = some (s, rest) := by
  simp [readString]

theorem readMany_encodeList {levels : Nat} {xs : List Item} (rest : Bytes)
    (hread : ∀ x ∈ xs, ∀ rest, readItem levels (x.encode ++ rest) = some (x, rest)) :
    readMany (readItem levels) xs.length (Item.encodeList xs ++ rest) = some (xs, rest) := by
  induction xs with
  | nil => rfl
  | cons x xs ih =>
      have hfirst := hread x List.mem_cons_self (Item.encodeList xs ++ rest)
      have hrest := ih fun y hy => hread y (List.mem_cons_of_mem x hy)
      simp [readMany, Item.encodeList, List.append_assoc, hfirst, hrest]

theorem readMany_encodeEntries {levels : Nat} {es : List (Nat × Item)} (rest : Bytes)
    (hkey : ∀ e ∈ es, e.1 < 2 ^ 64)
    (hread : ∀ e ∈ es, ∀ rest, readItem levels (e.2.encode ++ rest) = some (e.2, rest)) :
    readMany (readEntry (readItem levels)) es.length (Item.encodeEntries es ++ rest) =
      some (es, rest) := by
  induction es with
  | nil => rfl
  | cons e es ih =>
      have hhead := readHead_head (by decide : 0 < 8) (hkey e List.mem_cons_self)
        (e.2.encode ++ (Item.encodeEntries es ++ rest))
      have hvalue := hread e List.mem_cons_self (Item.encodeEntries es ++ rest)
      have hrest := ih (fun y hy => hkey y (List.mem_cons_of_mem e hy))
        fun y hy => hread y (List.mem_cons_of_mem e hy)
      simp [readMany, readEntry, Item.encodeEntries, List.append_assoc, hhead, hvalue, hrest]

/-- An encoded item is read back, whatever bytes follow it. -/
theorem readItem_encode {i : Item} (hi : i.Canonical) {levels : Nat} (hdepth : i.depth < levels)
    (rest : Bytes) : readItem levels (i.encode ++ rest) = some (i, rest) := by
  induction i generalizing levels rest with
  | uint n =>
      obtain ⟨levels, rfl⟩ := Nat.exists_eq_succ_of_ne_zero (Nat.ne_zero_of_lt hdepth)
      have hhead := readHead_head (by decide : 0 < 8) (Item.canonical_uint.mp hi) rest
      simp [readItem, Item.encode, hhead]
  | nint n =>
      obtain ⟨levels, rfl⟩ := Nat.exists_eq_succ_of_ne_zero (Nat.ne_zero_of_lt hdepth)
      have hhead := readHead_head (by decide : 1 < 8) (Item.canonical_nint.mp hi) rest
      simp [readItem, Item.encode, hhead]
  | bytes b =>
      obtain ⟨levels, rfl⟩ := Nat.exists_eq_succ_of_ne_zero (Nat.ne_zero_of_lt hdepth)
      have hhead := readHead_head (by decide : 2 < 8) (Item.canonical_bytes.mp hi) (b ++ rest)
      simp [readItem, Item.encode, hhead, readString_append]
  | text b =>
      obtain ⟨levels, rfl⟩ := Nat.exists_eq_succ_of_ne_zero (Nat.ne_zero_of_lt hdepth)
      have hhead := readHead_head (by decide : 3 < 8) (Item.canonical_text.mp hi) (b ++ rest)
      simp [readItem, Item.encode, hhead, readString_append]
  | array xs ih =>
      obtain ⟨levels, rfl⟩ := Nat.exists_eq_succ_of_ne_zero (Nat.ne_zero_of_lt hdepth)
      obtain ⟨hlen, hxs⟩ := Item.canonical_array.mp hi
      have hhead := readHead_head (by decide : 4 < 8) hlen (Item.encodeList xs ++ rest)
      have hmany := readMany_encodeList rest fun x hx rest =>
        ih x hx (hxs x hx) (Item.depth_array_lt.mp hdepth x hx) rest
      simp [readItem, Item.encode, hhead, hmany]
  | map es ih =>
      obtain ⟨levels, rfl⟩ := Nat.exists_eq_succ_of_ne_zero (Nat.ne_zero_of_lt hdepth)
      obtain ⟨hlen, -, hes⟩ := Item.canonical_map.mp hi
      have hhead := readHead_head (by decide : 5 < 8) hlen (Item.encodeEntries es ++ rest)
      have hmany := readMany_encodeEntries rest (fun e he => (hes e he).1) fun e he rest =>
        ih e he (hes e he).2 (Item.depth_map_lt.mp hdepth e he) rest
      simp [readItem, Item.encode, hhead, hmany]
  | bool b =>
      obtain ⟨levels, rfl⟩ := Nat.exists_eq_succ_of_ne_zero (Nat.ne_zero_of_lt hdepth)
      cases b <;> rfl
  | null | undefined =>
      obtain ⟨levels, rfl⟩ := Nat.exists_eq_succ_of_ne_zero (Nat.ne_zero_of_lt hdepth)
      rfl

namespace Item

/-- Canonical encodings are uniquely decodable, also inside a longer string. -/
theorem encode_prefix_free {i j : Item} (hi : i.Canonical) (hj : j.Canonical) {r s : Bytes}
    (h : i.encode ++ r = j.encode ++ s) : i = j ∧ r = s := by
  have hleft := readItem_encode hi (Nat.lt_succ_of_le (Nat.le_max_left i.depth j.depth)) r
  have hright := readItem_encode hj (Nat.lt_succ_of_le (Nat.le_max_right i.depth j.depth)) s
  rw [h, hright] at hleft
  simpa using hleft.symm

theorem encode_injective {i j : Item} (hi : i.Canonical) (hj : j.Canonical)
    (h : i.encode = j.encode) : i = j :=
  (encode_prefix_free hi hj (r := []) (s := []) (by rw [h])).1

end Item

end Cbor
