import Komms.Crypto.FasterHex
import Komms.Protocol.Validate
import Mathlib.Data.List.Induction
import Mathlib.Data.String.Basic

/-!
# JSON output

The values that are printed, an object being the list of its members in the order of their
keys. `refJson` and `eventToJson` show a reference and an event.
-/

namespace Komms

open Cbor

/-- `serde_json::Value`, without the numbers that are not `u64`. -/
inductive Json where
  | null
  | bool (b : Bool)
  | number (n : UInt64)
  | string (s : String)
  | object (members : List (String × Json))

namespace Json

/-- The member of an object. -/
def get? : Json → String → Option Json
  | object members, key => members.lookup key
  | _, _ => none

/-- `json[key] = value` on an object. -/
def set (json : Json) (key : String) (value : Json) : Json :=
  match json with
  | object members => object (SortedMap.insertEntry key value members)
  | json => json

/-- `json!({ .. })`. -/
def ofMembers (members : List (String × Json)) : Json :=
  members.foldl (fun json m => json.set m.1 m.2) (object [])

def ofOption (x : Option Json) : Json := x.getD null

def IsObject (json : Json) : Prop := ∃ members, json = object members

theorem IsObject.set {json : Json} (h : json.IsObject) (key : String) (value : Json) :
    (json.set key value).IsObject := by
  obtain ⟨members, rfl⟩ := h
  exact ⟨_, rfl⟩

theorem get?_set_self {json : Json} (h : json.IsObject) (key : String) (value : Json) :
    (json.set key value).get? key = some value := by
  obtain ⟨members, rfl⟩ := h
  rw [set, get?, SortedMap.lookup_insertEntry, if_pos rfl]

theorem get?_set_of_ne {json : Json} {key key' : String} (h : key' ≠ key) (value : Json) :
    (json.set key value).get? key' = json.get? key' := by
  cases json with
  | object members => rw [set, get?, get?, SortedMap.lookup_insertEntry, if_neg h]
  | _ => rfl

theorem isObject_ofMembers (members : List (String × Json)) : (ofMembers members).IsObject := by
  rw [ofMembers]
  induction members using List.reverseRecOn with
  | nil => exact ⟨[], rfl⟩
  | append_singleton members m ih =>
      rw [List.foldl_append]
      exact ih.set m.1 m.2

/-- An object has no members but those that it is made of. -/
theorem get?_ofMembers_eq_none {members : List (String × Json)} {key : String}
    (h : key ∉ members.map Prod.fst) : (ofMembers members).get? key = none := by
  rw [ofMembers]
  induction members using List.reverseRecOn with
  | nil => rfl
  | append_singleton members m ih =>
      rw [List.map_append, List.mem_append, not_or] at h
      obtain ⟨hmembers, hm⟩ := h
      rw [List.foldl_append]
      exact (get?_set_of_ne (List.ne_of_not_mem_cons hm) m.2).trans (ih hmembers)

/-- An object has the members that it is made of, if their keys differ. -/
theorem get?_ofMembers {members : List (String × Json)} {key : String} {value : Json}
    (hkeys : (members.map Prod.fst).Nodup) (h : (key, value) ∈ members) :
    (ofMembers members).get? key = some value := by
  rw [ofMembers]
  induction members using List.reverseRecOn with
  | nil => cases h
  | append_singleton members m ih =>
      rw [List.map_append, List.nodup_append] at hkeys
      obtain ⟨hkeys, -, hdisjoint⟩ := hkeys
      rw [List.foldl_append]
      rcases List.mem_append.mp h with h | h
      · have hne : key ≠ m.1 :=
          hdisjoint key (List.mem_map_of_mem h) m.1 (List.mem_singleton.mpr rfl)
        exact (get?_set_of_ne hne m.2).trans (ih hkeys h)
      · obtain rfl := List.mem_singleton.mp h
        exact get?_set_self (isObject_ofMembers members) key value

/-- Objects agree on the keys of the members that they share. -/
theorem get?_ofMembers_of_subset {members members' : List (String × Json)} {key : String}
    (hkeys : (members.map Prod.fst).Nodup) (hkeys' : (members'.map Prod.fst).Nodup)
    (hsubset : members ⊆ members') (h : key ∈ members.map Prod.fst) :
    (ofMembers members).get? key = (ofMembers members').get? key := by
  obtain ⟨⟨key, value⟩, hmem, rfl⟩ := List.mem_map.mp h
  rw [get?_ofMembers hkeys hmem, get?_ofMembers hkeys' (hsubset hmem)]

/-- An object determines the members that it is made of, if their keys are known. -/
theorem eq_of_ofMembers {members members' : List (String × Json)}
    (h : ofMembers members = ofMembers members') (hkeys : (members.map Prod.fst).Nodup)
    (hsame : members.map Prod.fst = members'.map Prod.fst) : members = members' := by
  have hlength : members.length = members'.length := by
    simpa using congrArg List.length hsame
  refine List.ext_getElem hlength fun i hi hi' => ?_
  have hkey : members[i].1 = members'[i].1 := by
    have hget := List.getElem_of_eq hsame (by simpa using hi : i < (members.map Prod.fst).length)
    rwa [List.getElem_map, List.getElem_map] at hget
  have hvalue : (ofMembers members).get? members[i].1 = some members[i].2 :=
    get?_ofMembers hkeys (List.getElem_mem hi)
  have hvalue' : (ofMembers members').get? members'[i].1 = some members'[i].2 :=
    get?_ofMembers (hsame ▸ hkeys) (List.getElem_mem hi')
  rw [h, hkey, hvalue'] at hvalue
  exact Prod.ext hkey (Option.some.inj hvalue).symm

/-- An optional value is shown without loss if the value itself is, and is not shown as null. -/
theorem ofOption_map_injective {α : Type} {f : α → Json} (hf : Function.Injective f)
    (hnull : ∀ a, f a ≠ null) : Function.Injective fun x : Option α => ofOption (x.map f) := by
  intro x y h
  cases x with
  | none =>
      cases y with
      | none => rfl
      | some b => exact absurd h.symm (hnull b)
  | some a =>
      cases y with
      | none => exact absurd h (hnull a)
      | some b => exact congrArg some (hf h)

theorem ofOption_map_number_injective :
    Function.Injective fun x : Option UInt64 => ofOption (x.map number) :=
  ofOption_map_injective (fun _ _ => number.inj) fun _ => Json.noConfusion

end Json

section Source

variable (hex : FasterHex)

def hex32 (b : Bytes32) : Json := .string (hex.hexString b.1)

def hexOpt (b : Option Bytes32) : Json := .ofOption (b.map (hex32 hex))

def hexVec (b : Option VecU8) : Json := .ofOption (b.map fun v => .string (hex.hexString v.1))

section Lossless

variable {hex} (henc : hex.Encodes)

include henc

theorem hex32_injective : Function.Injective (hex32 hex) := by
  intro a b h
  exact Subtype.ext (henc.hexString_injective (Json.string.inj h))

theorem hexOpt_injective : Function.Injective (hexOpt hex) :=
  Json.ofOption_map_injective (hex32_injective henc) fun _ => Json.noConfusion

/-- An optional byte string of some kind. -/
theorem hexString_map_injective {α : Type} {bytes : α → Bytes} (hbytes : Function.Injective bytes) :
    Function.Injective fun x : Option α =>
      Json.ofOption (x.map fun a => .string (hex.hexString (bytes a))) := by
  apply Json.ofOption_map_injective
  · intro a b h
    exact hbytes (henc.hexString_injective (Json.string.inj h))
  · exact fun _ => Json.noConfusion

theorem hexVec_injective : Function.Injective (hexVec hex) :=
  hexString_map_injective henc Subtype.val_injective

end Lossless

def refJson (refBytes : Bytes) : Json :=
  match refBytes with
  | [] => .ofMembers [("error", .string "empty ref")]
  | tag :: body =>
    if tag = 0x01 then .ofMembers [("ref_type", .string "cid"), ("ref_type_byte", .number 1),
      ("cid", .string ((fromUtf8 body).getD "<invalid utf-8>"))]
    else if tag = 0x02 then
      if h : body.length = 32 then .ofMembers [("ref_type", .string "content_hash"),
        ("ref_type_byte", .number 2), ("sha256", hex32 hex ⟨body, h⟩)]
      else .ofMembers [("ref_type", .string "content_hash"), ("error", .string "expected 33 bytes")]
    else .ofMembers [("ref_type", .string "unknown"), ("ref_type_byte", .number tag.toUInt64)]

/-- The members of the JSON of an event. -/
def eventMembers (ev : ParsedKommsEvent) : List (String × Json) :=
  [("v", .number ev.v),
    ("t", .number ev.t.asU8.toUInt64),
    ("event_type", .string ev.t.debug),
    ("sid", hexOpt hex ev.sid),
    ("cid", hexOpt hex ev.cid),
    ("did", hexOpt hex ev.did),
    ("pid", hexOpt hex ev.pid),
    ("mid", hexOpt hex ev.mid),
    ("ref", hexVec hex ev.refBytes),
    ("ref_decoded", .ofOption (ev.refBytes.map fun r => refJson hex r.1)),
    ("ref_valid", .ofOption (ev.refBytes.map fun r => .bool (validateRef r.1).isOk)),
    ("enc", .bool ev.enc),
    ("ts", .ofOption (ev.ts.map .number)),
    ("n", .ofOption (ev.n.map .number)),
    ("sig", .ofOption (ev.sig.map fun s => .string (hex.hexString s.1)))]

theorem eventMembers_keys (ev : ParsedKommsEvent) : (eventMembers hex ev).map Prod.fst =
    ["v", "t", "event_type", "sid", "cid", "did", "pid", "mid", "ref", "ref_decoded", "ref_valid",
      "enc", "ts", "n", "sig"] := rfl

def eventToJson (ev : ParsedKommsEvent) : Json := .ofMembers (eventMembers hex ev)

end Source

end Komms
