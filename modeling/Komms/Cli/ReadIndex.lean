import Komms.Cli.Hexutil
import Komms.Cli.IndexScan
import Komms.Cli.Output

/-!
# The `read index` command

All rows of the index are loaded, the filters are read, and a loop shows the rows that no filter
holds back. `Selected` says which rows these are. A row shows all of its record but the address
of the creator, so that nothing else is lost between the table and what is printed.
-/

namespace Komms

open Cbor Hexutil

/-- The filters of `read index`. -/
structure IndexArgs where
  eventType : Option UInt8 := none
  sidHex : Option String := none
  cidHex : Option String := none
  daaMin : Option UInt64 := none
  daaMax : Option UInt64 := none

section Source

variable (hex : FasterHex)

/-- The members that are shown of a row. -/
def indexMembers (txId : Bytes32) (rec : KommsEventRecord) : List (String × Json) :=
  [("txid", hex32 hex txId),
    ("containing_block_hash", hex32 hex rec.containingBlockHash),
    ("containing_daa", .number rec.containingDaa),
    ("event_type", .number rec.eventType.toUInt64),
    ("enc", .bool rec.enc),
    ("sid", hexOpt hex rec.sid),
    ("cid", hexOpt hex rec.cid),
    ("did", hexOpt hex rec.did),
    ("pid", hexOpt hex rec.pid),
    ("mid", hexOpt hex rec.mid),
    ("ref", hexVec hex rec.refBytes),
    ("ts", .ofOption (rec.ts.map .number)),
    ("n", .ofOption (rec.n.map .number)),
    ("sig", hexVec hex rec.sig)]

def indexRow (txId : Bytes32) (rec : KommsEventRecord) : Json :=
  .ofMembers (indexMembers hex txId rec)

/-- The loop over the entries, each filter being a reason to continue with the next one. -/
def indexRows (args : IndexArgs) (sidF cidF : Option Bytes32) :
    List (Bytes32 × KommsEventRecord) → List Json → List Json
  | [], rows => rows
  | (txId, rec) :: entries, rows =>
    if args.eventType.any fun t => rec.eventType ≠ t then indexRows args sidF cidF entries rows
    else if sidF.any fun s => rec.sid ≠ some s then indexRows args sidF cidF entries rows
    else if cidF.any fun c => rec.cid ≠ some c then indexRows args sidF cidF entries rows
    else if args.daaMin.any fun lo => rec.containingDaa < lo then
      indexRows args sidF cidF entries rows
    else if args.daaMax.any fun hi => rec.containingDaa > hi then
      indexRows args sidF cidF entries rows
    else indexRows args sidF cidF entries (rows ++ [indexRow hex txId rec])

/-- The events that are printed. -/
def runReadIndex (p : Postcard) (items : List (Except String (Bytes × Bytes))) (args : IndexArgs) :
    Except String (List Json) := do
  let entries ← loadKommsEvents p hex items
  let sidF ← args.sidHex.mapM (parseHex32 hex)
  let cidF ← args.cidHex.mapM (parseHex32 hex)
  .ok (indexRows hex args sidF cidF entries [])

end Source

/-- A row satisfies all filters. -/
structure Selected (args : IndexArgs) (sidF cidF : Option Bytes32) (rec : KommsEventRecord) :
    Prop where
  eventType : ∀ t ∈ args.eventType, rec.eventType = t
  sid : ∀ s ∈ sidF, rec.sid = some s
  cid : ∀ c ∈ cidF, rec.cid = some c
  daaMin : ∀ lo ∈ args.daaMin, lo ≤ rec.containingDaa
  daaMax : ∀ hi ∈ args.daaMax, rec.containingDaa ≤ hi

section Rows

variable {hex : FasterHex} {args : IndexArgs} {sidF cidF : Option Bytes32}

/-- No filter holds a value back exactly when it satisfies the filter. -/
theorem any_eq_false_iff {α : Type} {f : Option α} {p : α → Prop} [DecidablePred p] :
    f.any (fun a => p a) = false ↔ ∀ a ∈ f, ¬ p a := by
  cases f <;> simp

/-- No check of the loop holds a selected row back. -/
theorem selected_iff {rec : KommsEventRecord} : Selected args sidF cidF rec ↔
    (args.eventType.any fun t => rec.eventType ≠ t) = false ∧
      (sidF.any fun s => rec.sid ≠ some s) = false ∧
      (cidF.any fun c => rec.cid ≠ some c) = false ∧
      (args.daaMin.any fun lo => rec.containingDaa < lo) = false ∧
      (args.daaMax.any fun hi => rec.containingDaa > hi) = false := by
  simp only [any_eq_false_iff, not_not, gt_iff_lt, UInt64.not_lt]
  constructor
  · rintro ⟨ht, hs, hc, hlo, hhi⟩
    exact ⟨ht, hs, hc, hlo, hhi⟩
  · rintro ⟨ht, hs, hc, hlo, hhi⟩
    exact ⟨ht, hs, hc, hlo, hhi⟩

instance : DecidablePred (Selected args sidF cidF) :=
  fun _ => decidable_of_iff _ selected_iff.symm

/-- One entry: it is shown, or the loop goes on without it. -/
theorem indexRows_cons (txId : Bytes32) (rec : KommsEventRecord)
    (entries : List (Bytes32 × KommsEventRecord)) (rows : List Json) :
    indexRows hex args sidF cidF ((txId, rec) :: entries) rows =
      indexRows hex args sidF cidF entries
        (if Selected args sidF cidF rec then rows ++ [indexRow hex txId rec] else rows) := by
  rw [indexRows]
  by_cases h : Selected args sidF cidF rec
  · obtain ⟨ht, hs, hc, hlo, hhi⟩ := selected_iff.mp h
    rw [if_pos h, ht, hs, hc, hlo, hhi]
    rfl
  · rw [if_neg h]
    split_ifs with ht hs hc hlo hhi
    case neg =>
      exact absurd (selected_iff.mpr ⟨eq_false_of_ne_true ht, eq_false_of_ne_true hs,
        eq_false_of_ne_true hc, eq_false_of_ne_true hlo, eq_false_of_ne_true hhi⟩) h
    all_goals rfl

/-- The loop shows the selected rows in their order. -/
theorem indexRows_eq (entries : List (Bytes32 × KommsEventRecord)) (rows : List Json) :
    indexRows hex args sidF cidF entries rows =
      rows ++ (entries.filter fun row => Selected args sidF cidF row.2).map fun row =>
        indexRow hex row.1 row.2 := by
  induction entries generalizing rows with
  | nil => simp [indexRows]
  | cons row entries ih =>
      obtain ⟨txId, rec⟩ := row
      rw [indexRows_cons, ih]
      by_cases hselected : Selected args sidF cidF rec
      · rw [if_pos hselected, List.filter_cons_of_pos (by simpa using hselected), List.map_cons,
          List.append_assoc, List.singleton_append]
      · rw [if_neg hselected, List.filter_cons_of_neg (by simpa using hselected)]

theorem indexMembers_keys (txId : Bytes32) (rec : KommsEventRecord) :
    (indexMembers hex txId rec).map Prod.fst =
      ["txid", "containing_block_hash", "containing_daa", "event_type", "enc", "sid", "cid", "did",
        "pid", "mid", "ref", "ts", "n", "sig"] := rfl

/-- A row shows all of its record but the address of the creator. -/
theorem eq_of_indexRow (henc : hex.Encodes) {txId txId' : Bytes32} {rec rec' : KommsEventRecord}
    (h : indexRow hex txId rec = indexRow hex txId' rec') :
    txId = txId' ∧ { rec with creatorAddressBody := none } =
      { rec' with creatorAddressBody := none } := by
  have hkeys : ((indexMembers hex txId rec).map Prod.fst).Nodup := by
    rw [indexMembers_keys]
    decide
  have hmembers := Json.eq_of_ofMembers h hkeys (by rw [indexMembers_keys, indexMembers_keys])
  simp only [indexMembers, List.cons.injEq, Prod.mk.injEq, true_and, and_true,
    (hex32_injective henc).eq_iff, (hexOpt_injective henc).eq_iff, (hexVec_injective henc).eq_iff,
    Json.number.injEq, Json.bool.injEq] at hmembers
  obtain ⟨htx, hhash, hdaa, ht, henc, hsid, hcid, hdid, hpid, hmid, href, hts, hn, hsig⟩ := hmembers
  have ht := UInt8.toUInt64_inj.mp ht
  have hts := Json.ofOption_map_number_injective hts
  have hn := Json.ofOption_map_number_injective hn
  refine ⟨htx, ?_⟩
  rw [hhash, hdaa, ht, henc, hsid, hcid, hdid, hpid, hmid, href, hts, hn, hsig]

end Rows

theorem runReadIndex_of_load {p : Postcard} {hex : FasterHex} {args : IndexArgs}
    {items : List (Except String (Bytes × Bytes))} {entries : List (Bytes32 × KommsEventRecord)}
    {sidF cidF : Option Bytes32} (hload : loadKommsEvents p hex items = .ok entries)
    (hsid : args.sidHex.mapM (parseHex32 hex) = .ok sidF)
    (hcid : args.cidHex.mapM (parseHex32 hex) = .ok cidF) :
    runReadIndex hex p items args =
      .ok ((entries.filter fun row => Selected args sidF cidF row.2).map fun row =>
        indexRow hex row.1 row.2) := by
  simp only [runReadIndex, hload, hsid, hcid, Except.ok_bind, indexRows_eq, List.nil_append]

/-- The first entry that cannot be loaded is reported. -/
theorem loadKommsEvents_error {p : Postcard} {hex : FasterHex}
    {before after : List (Except String (Bytes × Bytes))} {bad : Except String (Bytes × Bytes)}
    {e : String} (hbefore : ∀ item ∈ before, ∃ entry, loadRow p hex item = .ok entry)
    (hbad : loadRow p hex bad = .error e) :
    loadKommsEvents p hex (before ++ bad :: after) = .error e := by
  induction before with
  | nil => rw [List.nil_append, loadKommsEvents, List.mapM_cons, hbad, Except.error_bind]
  | cons item before ih =>
      obtain ⟨entry, hentry⟩ := hbefore item List.mem_cons_self
      have hrest := ih fun item hitem => hbefore item (List.mem_cons_of_mem _ hitem)
      rw [loadKommsEvents] at hrest ⊢
      rw [List.cons_append, List.mapM_cons, hentry, Except.ok_bind, hrest, Except.error_bind]

/-- Of a table with rows of both layouts, the rows that satisfy all filters are shown in their
order, each with all of its record but the address of the creator. An entry that cannot be loaded
is an error, whatever the filters. -/
theorem readIndex_exact (p : Postcard) (hex : FasterHex) (hp : p.Documented) (hhex : hex.Documented)
    (henc : hex.Encodes) (args : IndexArgs) :
    (∀ sidF cidF : Option Bytes32,
      Option.Rel (fun s v => Denotes s v.1) args.sidHex sidF →
      Option.Rel (fun s v => Denotes s v.1) args.cidHex cidF →
      ∀ rows : List (Bytes32 × StoredRecord),
        runReadIndex hex p (rows.map fun row => .ok (row.1.1, row.2.serialize p)) args =
          .ok ((rows.filter fun row => Selected args sidF cidF row.2.upgraded).map fun row =>
            indexRow hex row.1 row.2.upgraded)) ∧
    (∀ row row' : Bytes32 × StoredRecord,
      indexRow hex row.1 row.2.upgraded = indexRow hex row'.1 row'.2.upgraded →
        row.1 = row'.1 ∧ { row.2.upgraded with creatorAddressBody := none } =
          { row'.2.upgraded with creatorAddressBody := none }) ∧
    ∀ before bad after e, (∀ item ∈ before, ∃ entry, loadRow p hex item = .ok entry) →
      loadRow p hex bad = .error e →
      runReadIndex hex p (before ++ bad :: after) args = .error e := by
  have hread {f : Option String} {v : Option Bytes32}
      (h : Option.Rel (fun s v => Denotes s v.1) f v) : f.mapM (parseHex32 hex) = .ok v :=
    Except.mapM_eq_ok_of_rel h fun _ _ => parseHex32_of_denotes hhex
  refine ⟨fun sidF cidF hsid hcid rows => ?_, fun row row' h => eq_of_indexRow henc h,
    fun before bad after e hbefore hbad => ?_⟩
  · rw [runReadIndex_of_load (loadKommsEvents_stored hp hex rows) (hread hsid) (hread hcid),
      List.filter_map, List.map_map, Function.comp_def, Function.comp_def]
  · rw [runReadIndex, loadKommsEvents_error hbefore hbad, Except.error_bind]

/-- A table with a row of each layout, of which the second one is of another type. -/
def sampleTable : List (Bytes32 × StoredRecord) :=
  [(List.Vector.replicate 32 1, .v1 sampleRowV1),
    (List.Vector.replicate 32 2,
      .current { sampleRowV1 with eventType := 9, creatorAddressBody := none })]

/-- Posted messages from a score on. -/
def sampleArgs : IndexArgs where
  eventType := some 4
  daaMin := some 300

/-- Only the first row is shown. -/
theorem sampleTable_shown :
    runReadIndex .reference .reference
        (sampleTable.map fun row => .ok (row.1.1, row.2.serialize .reference)) sampleArgs =
      .ok [indexRow .reference (List.Vector.replicate 32 1)
        { sampleRowV1 with creatorAddressBody := none }] := by
  have hselected : (sampleTable.filter fun row => Selected sampleArgs none none row.2.upgraded) =
      [(List.Vector.replicate 32 1, .v1 sampleRowV1)] := by
    rfl
  have hshown := (readIndex_exact .reference .reference Postcard.reference_documented
    FasterHex.reference_documented FasterHex.reference_encodes sampleArgs).1 none none .none .none
    sampleTable
  rw [hselected] at hshown
  exact hshown

end Komms
