import Komms.Protocol.Canonical
import Komms.Protocol.Parse

/-!
# Values within the canonical profile

`Value.ProfileWithin d` says that a value is one of the canonical profile with at
most `d` levels below it. The canonical walker accepts what the writer emits for a
value exactly when the value is within `maxNestingDepth`, and the reader then gives
the value back.
-/

namespace Komms

open Cbor Canonical

namespace Value

/-- A value of the canonical profile with at most `d` levels below the root. -/
def ProfileWithin (v : Value) (d : Nat) : Prop :=
  ∃ i, v.toItem = some i ∧ i.Canonical ∧ i.depth ≤ d

variable {v : Value} {d : Nat}

theorem ProfileWithin.profile (h : v.ProfileWithin d) : v.Profile := by
  obtain ⟨i, hv, hi, -⟩ := h
  exact ⟨i, hv, hi⟩

theorem ProfileWithin.mono {d' : Nat} (h : v.ProfileWithin d) (hd : d ≤ d') :
    v.ProfileWithin d' := by
  obtain ⟨i, hv, hi, hdepth⟩ := h
  exact ⟨i, hv, hi, hdepth.trans hd⟩

theorem profileWithin_uint (n : UInt64) : (uint n).ProfileWithin 0 :=
  ⟨.uint n.toNat, rfl, Item.canonical_uint.mpr n.toNat_lt, Nat.le_refl 0⟩

theorem profileWithin_bytes (b : VecU8) : (bytes b).ProfileWithin 0 :=
  ⟨.bytes b.1, rfl, Item.canonical_bytes.mpr b.2, Nat.le_refl 0⟩

theorem profileWithin_bool (b : Bool) : (bool b).ProfileWithin 0 :=
  ⟨.bool b, rfl, Item.canonical_bool b, Nat.le_refl 0⟩

theorem profileWithin_text {s : String} (h : (utf8 s).length < 2 ^ 64) :
    (text s).ProfileWithin 0 :=
  ⟨.text (utf8 s), rfl, Item.canonical_text.mpr h, Nat.le_refl 0⟩

/-- What an item of the profile decodes to is in the profile, even if the item holds
`undefined`. -/
theorem exists_toItem_of_ofItem {i : Item} {n : Nat} (hi : i.Canonical) (hdepth : i.depth < n)
    (h : ofItem i = some v) : ∃ j, (j.Canonical ∧ j.depth < n) ∧ v.toItem = some j := by
  induction i generalizing n v with
  | uint | nint | bytes | text | bool | null =>
      exact ⟨_, ⟨hi, hdepth⟩, toItem_of_ofItem hi rfl h⟩
  | undefined =>
      obtain rfl := Option.some.inj h
      exact ⟨.null, ⟨rfl, hdepth⟩, rfl⟩
  | array is ih =>
      obtain ⟨xs, hxs, rfl⟩ := Option.map_eq_some_iff.mp h
      obtain ⟨hlength, his⟩ := Item.canonical_array.mp hi
      cases n with
      | zero => cases hdepth
      | succ n =>
          have hdepth := Item.depth_array_lt.mp hdepth
          obtain ⟨js, hjs, hitems⟩ := List.exists_forall₂_beside (listOfItem_eq_some_iff.mp hxs)
            fun i hmem _ => ih i hmem (his i hmem) (hdepth i hmem)
          have hjs' : ∀ j ∈ js, j.Canonical ∧ j.depth < n :=
            List.forall_right_of_mem (fun _ _ _ hj => hj) hjs
          rw [hjs.length_eq] at hlength
          refine ⟨.array js, ⟨Item.canonical_array.mpr ⟨hlength, fun j hj => (hjs' j hj).1⟩,
            Item.depth_array_lt.mpr fun j hj => (hjs' j hj).2⟩, ?_⟩
          rw [toItem, listToItem_eq_some_iff.mpr hitems]
          rfl
  | map is ih =>
      obtain ⟨es, hes, rfl⟩ := Option.map_eq_some_iff.mp h
      obtain ⟨hlength, hsorted, his⟩ := Item.canonical_map.mp hi
      cases n with
      | zero => cases hdepth
      | succ n =>
          have hdepth := Item.depth_map_lt.mp hdepth
          -- an entry of the new item keeps the key of the old one
          obtain ⟨js, hjs, hitems⟩ : ∃ js : List (Nat × Item),
              List.Forall₂ (fun i j => i.1 = j.1 ∧ j.2.Canonical ∧ j.2.depth < n) is js ∧
              List.Forall₂ (fun e j => toItem e.1 = some (.uint j.1) ∧ toItem e.2 = some j.2)
                es js := by
            refine List.exists_forall₂_beside (entriesOfItem_eq_some_iff.mp hes) ?_
            intro i hmem e he
            obtain ⟨j, hj, hitem⟩ := ih i hmem (his i hmem).2 (hdepth i hmem) he.2
            refine ⟨(i.1, j), ⟨rfl, hj⟩, ?_, hitem⟩
            rw [he.1, toItem, UInt64.toNat_ofNat_of_lt' (his i hmem).1]
          have hkeys : is.map Prod.fst = js.map Prod.fst :=
            List.map_eq_map_of_forall₂ (hjs.imp fun _ _ hij => hij.1)
          have hsorted' : js.Pairwise fun e e' => e.1 < e'.1 :=
            List.pairwise_map.mp (hkeys ▸ List.pairwise_map.mpr hsorted)
          have hjs' : ∀ j ∈ js, (j.1 < 2 ^ 64 ∧ j.2.Canonical) ∧ j.2.depth < n := by
            refine List.forall_right_of_mem (fun i hi j hij => ?_) hjs
            obtain ⟨hkey, hj, hlt⟩ := hij
            exact ⟨⟨hkey ▸ (his i hi).1, hj⟩, hlt⟩
          rw [hjs.length_eq] at hlength
          refine ⟨.map js, ⟨Item.canonical_map.mpr ⟨hlength, hsorted', fun j hj => (hjs' j hj).1⟩,
            Item.depth_map_lt.mpr fun j hj => (hjs' j hj).2⟩, ?_⟩
          rw [toItem, entriesToItem_eq_some_iff.mpr hitems]
          rfl

/-- What an item of the profile decodes to is in the profile. -/
theorem profileWithin_of_ofItem {i : Item} (hi : i.Canonical) (hdepth : i.depth ≤ d)
    (h : ofItem i = some v) : v.ProfileWithin d := by
  obtain ⟨j, ⟨hj, hlt⟩, hitem⟩ := exists_toItem_of_ofItem hi (Nat.lt_succ_of_le hdepth) h
  exact ⟨j, hitem, hj, Nat.le_of_lt_succ hlt⟩

theorem toItem_bk (k : UInt8) : (bk k).toItem = some (.uint k.toNat) := by
  rw [bk, uint, toItem, UInt8.toNat_toUInt64]

/-- There are 256 bytes to be keys. -/
theorem length_le_of_keys_ascend {fields : List (UInt8 × Value)}
    (h : fields.Pairwise fun e e' => e.1 < e'.1) : fields.length ≤ 256 := by
  have hnodup : (fields.map fun e => e.1.toNat).Nodup := by
    refine List.pairwise_map.mpr (h.imp fun {e e'} hlt => ?_)
    exact (UInt8.lt_iff_toNat_lt.mp hlt).ne
  have hsubset : (fields.map fun e => e.1.toNat) ⊆ List.range 256 := by
    intro n hn
    obtain ⟨e, -, rfl⟩ := List.mem_map.mp hn
    exact List.mem_range.mpr e.1.toNat_lt
  have hlength := (List.subperm_of_subset hnodup hsubset).length_le
  rwa [List.length_map, List.length_range] at hlength

theorem toItem_map_iff {fields : List (UInt8 × Value)} {i : Item} :
    (map (fields.map fun e => (bk e.1, e.2))).toItem = some i ↔ ∃ is, i = .map is ∧
      List.Forall₂ (fun e i => e.1.toNat = i.1 ∧ e.2.toItem = some i.2) fields is := by
  rw [toItem, Option.map_eq_some_iff]
  refine exists_congr fun is => ?_
  rw [and_comm, @eq_comm _ _ i]
  refine and_congr_right fun _ => ?_
  simp only [entriesToItem_eq_some_iff, List.forall₂_map_left_iff, toItem_bk, Option.some.injEq,
    Item.uint.injEq]

/-- A map keyed by bytes is in the profile when its keys ascend and its values are in it. -/
theorem profileWithin_map {fields : List (UInt8 × Value)} :
    (map (fields.map fun e => (bk e.1, e.2))).ProfileWithin (d + 1) ↔
      fields.Pairwise (fun e e' => e.1 < e'.1) ∧ ∀ e ∈ fields, e.2.ProfileWithin d := by
  constructor
  · intro h
    obtain ⟨i, hitem, hcanonical, hdepth⟩ := h
    obtain ⟨is, rfl, hall⟩ := toItem_map_iff.mp hitem
    obtain ⟨-, hsorted, his⟩ := Item.canonical_map.mp hcanonical
    have hdepth := Item.depth_map_lt.mp (Nat.lt_succ_of_le hdepth)
    constructor
    · have hkeys : (is.map Prod.fst).Pairwise (· < ·) := List.pairwise_map.mpr hsorted
      rw [← List.map_eq_map_of_forall₂ (hall.imp fun _ _ he => he.1)] at hkeys
      exact (List.pairwise_map.mp hkeys).imp UInt8.lt_iff_toNat_lt.mpr
    · refine List.forall_right_of_mem ?_ hall.flip
      intro i hi e he
      exact ⟨i.2, he.2, (his i hi).2, Nat.le_of_lt_succ (hdepth i hi)⟩
  · intro h
    obtain ⟨hsorted, hfields⟩ := h
    have hitems : ∀ e ∈ fields, ∃ i : Nat × Item, (e.1.toNat = i.1 ∧ e.2.toItem = some i.2) ∧
        (i.1 < 2 ^ 64 ∧ i.2.Canonical) ∧ i.2.depth < d + 1 := by
      intro e he
      obtain ⟨i, hitem, hcanonical, hdepth⟩ := hfields e he
      have hlt := e.1.toNat_lt
      exact ⟨(e.1.toNat, i), ⟨rfl, hitem⟩, ⟨by simp only; omega, hcanonical⟩,
        Nat.lt_succ_of_le hdepth⟩
    obtain ⟨is, hall⟩ := List.exists_forall₂ hitems
    have hitem := hall.imp fun _ _ h => h.1
    have hlength : is.length < 2 ^ 64 := by
      have hle := length_le_of_keys_ascend hsorted
      rw [hall.length_eq] at hle
      omega
    have hkeys : (is.map Prod.fst).Pairwise (· < ·) := by
      rw [← List.map_eq_map_of_forall₂ (hitem.imp fun _ _ he => he.1)]
      exact List.pairwise_map.mpr (hsorted.imp UInt8.lt_iff_toNat_lt.mp)
    refine ⟨.map is, toItem_map_iff.mpr ⟨is, rfl, hitem⟩, ?_, ?_⟩
    · exact Item.canonical_map.mpr ⟨hlength, List.pairwise_map.mp hkeys,
        List.forall_right_of_mem (fun _ _ _ h => h.2.1) hall⟩
    · exact Nat.le_of_lt_succ (Item.depth_map_lt.mpr
        (List.forall_right_of_mem (fun _ _ _ h => h.2.2) hall))

end Value

/-- The walker accepts what is written for a value exactly when it is in the profile. -/
theorem validateCanonical_intoWriter {c : Ciborium} (hc : c.Documented) {v : Value}
    (hv : v.Fits) :
    validateCanonical (c.intoWriter v) = .ok () ↔ v.ProfileWithin maxNestingDepth := by
  obtain ⟨float, hfloat, hwrites⟩ := hc.writes
  rw [validateCanonical_ok_iff, hwrites v hv]
  constructor
  · intro h
    obtain ⟨i, henc, hi, hdepth⟩ := h
    exact ⟨i, Value.toItem_of_encode hfloat hv hi henc.symm, hi, hdepth⟩
  · intro h
    obtain ⟨i, hitem, hi, hdepth⟩ := h
    exact ⟨i, (Value.encode_of_toItem hitem).symm, hi, hdepth⟩

/-- What is written for a value of the profile is the encoding of its item. -/
theorem intoWriter_of_toItem {c : Ciborium} (hc : c.Documented) {v : Value} {i : Item}
    (hv : v.toItem = some i) (hi : i.Canonical) : c.intoWriter v = i.encode := by
  obtain ⟨float, -, hwrites⟩ := hc.writes
  rw [hwrites v (Value.Profile.fits ⟨i, hv, hi⟩), Value.encode_of_toItem hv]

/-- What the reader makes of an accepted byte string is what its item decodes to. -/
theorem fromReader_of_denotes {c : Ciborium} (hc : c.Documented) {b : Bytes} {i : Item}
    (h : Denotes b i) {v : Value} : c.fromReader b = .ok v ↔ Value.ofItem i = some v := by
  obtain ⟨rfl, hi, hdepth⟩ := h
  rw [← hc.reads i hi (Nat.lt_of_le_of_lt hdepth (by decide))]
  cases c.fromReader i.encode with
  | error e => exact iff_of_false (by simp) (by simp [Except.toOption])
  | ok v' =>
      rw [Except.toOption, Option.some.injEq, Except.ok.injEq]

/-- The reader gives back a value of the profile that was written. -/
theorem fromReader_intoWriter {c : Ciborium} (hc : c.Documented) {v : Value}
    (hv : v.ProfileWithin maxNestingDepth) : c.fromReader (c.intoWriter v) = .ok v := by
  obtain ⟨i, hitem, hi, hdepth⟩ := hv
  have hdenotes : Denotes (c.intoWriter v) i :=
    ⟨(intoWriter_of_toItem hc hitem hi).symm, hi, hdepth⟩
  exact (fromReader_of_denotes hc hdenotes).mpr (Value.ofItem_of_toItem hitem)

end Komms
