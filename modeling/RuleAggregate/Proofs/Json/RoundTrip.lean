import RuleAggregate.Proofs.Json.Members
import RuleAggregate.Proofs.Json.Tokens

/-!
# Reading back what was written as JSON

A written fact holds its fields and, in front of them, its type under the name `$type`.  It is read
back as a fact with a field of that name, and so are the facts inside it, whose types are not kept
otherwise.  The names share one space: of a field that is called `$type` itself and the type, the
field comes later and counts.

## What is here

* `Value.FloatFree`, `Value.depth` — which values can be read back: integers and texts are written
  exactly, and the reader follows containers 127 deep.
* `Value.ReadsBack` — how a value relates to what is read for it.
* `Json.takeValue?_write` — **a written value is read, whatever follows it.**
* `Fact.ofJson_json` — **what a written fact is read back as.**
-/

set_option autoImplicit false

namespace RuleAggregate

/-! ## Which values are read back, and as what -/

namespace Value

mutual

/-- There is no floating-point number in the value. -/
def FloatFree : Value → Prop
  | float _ => False
  | list vs => FloatFreeItems vs
  | fact _ fs => FloatFreeFields fs
  | _ => True

/-- There is no floating-point number in any item. -/
def FloatFreeItems : List Value → Prop
  | [] => True
  | v :: vs => FloatFree v ∧ FloatFreeItems vs

/-- There is no floating-point number in any field. -/
def FloatFreeFields : List (String × Value) → Prop
  | [] => True
  | (_, v) :: fs => FloatFree v ∧ FloatFreeFields fs

end

mutual

/-- How deep lists and facts are nested in the value, itself included. -/
def depth : Value → Nat
  | list vs => depthOfItems vs + 1
  | fact _ fs => depthOfFields fs + 1
  | _ => 0

/-- How deep lists and facts are nested in the items. -/
def depthOfItems : List Value → Nat
  | [] => 0
  | v :: vs => max (depth v) (depthOfItems vs)

/-- How deep lists and facts are nested in the fields. -/
def depthOfFields : List (String × Value) → Nat
  | [] => 0
  | (_, v) :: fs => max (depth v) (depthOfFields fs)

end

/-- The fields `gs` hold the type `t` under its name, unless one of the names `ks` is the same, and
no names but `ks` and this one. -/
def Tagged (t : String) (ks : List String) (gs : List (String × Value)) : Prop :=
  ("$type" ∉ ks → Assoc.get? "$type" gs = some (text t)) ∧
    ∀ k ∈ Assoc.keys gs, k = "$type" ∨ k ∈ ks

mutual

/-- The second value is what is read for the first one: a scalar for itself, a list for one of the
same length, and for a fact one of type `object` with the same fields, to which its type is added
under the name `$type`. -/
def ReadsBack : Value → Value → Prop
  | list vs, list ws => ItemsReadBack vs ws
  | fact t fs, fact u gs => u = "object" ∧ (Assoc.keys gs).Nodup ∧ FieldsReadBack fs gs ∧
      Tagged t (Assoc.keys fs) gs
  | v, w => w = v

/-- The items of one list are read for those of the other. -/
def ItemsReadBack : List Value → List Value → Prop
  | [], [] => True
  | v :: vs, w :: ws => ReadsBack v w ∧ ItemsReadBack vs ws
  | _, _ => False

/-- Every field of the first list is there in the second one, with what is read for its value. -/
def FieldsReadBack : List (String × Value) → List (String × Value) → Prop
  | [], _ => True
  | (k, v) :: fs, gs => (∃ w, Assoc.get? k gs = some w ∧ ReadsBack v w) ∧ FieldsReadBack fs gs

end

theorem fieldsReadBack_iff {fs gs : List (String × Value)} :
    FieldsReadBack fs gs ↔ ∀ p ∈ fs, ∃ w, Assoc.get? p.1 gs = some w ∧ p.2.ReadsBack w := by
  induction fs with
  | nil => simp [FieldsReadBack]
  | cons p fs ih => rw [FieldsReadBack, ih, List.forall_mem_cons]

/-! ## The value that is read -/

mutual

/-- The value that is read for a written one. -/
def readBack : Value → Value
  | list vs => list (readBackItems vs)
  | fact t fs => fact "object" (Json.sortMembers (("$type", text t) :: readBackFields fs))
  | v => v

def readBackItems : List Value → List Value
  | [] => []
  | v :: vs => readBack v :: readBackItems vs

def readBackFields : List (String × Value) → List (String × Value)
  | [] => []
  | (k, v) :: fs => (k, readBack v) :: readBackFields fs

end

theorem readBackFields_eq_map (fs : List (String × Value)) :
    readBackFields fs = fs.map fun p => (p.1, p.2.readBack) := by
  induction fs with
  | nil => rfl
  | cons p fs ih => rw [readBackFields, ih, List.map_cons]

theorem keys_readBackFields (fs : List (String × Value)) :
    Assoc.keys (readBackFields fs) = Assoc.keys fs := by
  rw [readBackFields_eq_map, Assoc.keys, List.map_map]
  rfl

/-- The type comes first, so it only counts if no field has its name. -/
theorem get?_sortMembers_readBack (t : String) {fs : List (String × Value)}
    (hfs : (Assoc.keys fs).Nodup) (k : String) :
    Assoc.get? k (Json.sortMembers (("$type", text t) :: readBackFields fs)) =
      ((Assoc.get? k fs).map readBack <|> if "$type" = k then some (text t) else none) := by
  rw [Json.get?_sortMembers_cons (by rwa [keys_readBackFields]), readBackFields_eq_map,
    Assoc.get?_map]

theorem tagged_readBack (t : String) {fs : List (String × Value)} (hfs : (Assoc.keys fs).Nodup) :
    Tagged t (Assoc.keys fs) (Json.sortMembers (("$type", text t) :: readBackFields fs)) := by
  refine ⟨fun hnone => ?_, fun k hk => ?_⟩
  · rw [get?_sortMembers_readBack t hfs, Assoc.get?_eq_none_iff.2 hnone, if_pos rfl]
    rfl
  · by_contra hnot
    rw [not_or] at hnot
    refine Assoc.get?_eq_none_iff.1 ?_ hk
    rw [get?_sortMembers_readBack t hfs, Assoc.get?_eq_none_iff.2 hnot.2, if_neg (Ne.symm hnot.1)]
    rfl

mutual

theorem readsBack_readBack : ∀ {v : Value}, v.WellFormed → v.ReadsBack v.readBack
  | null, _ => rfl
  | bool _, _ => rfl
  | int _, _ => rfl
  | float _, _ => rfl
  | text _, _ => rfl
  | list _, h => itemsReadBack_readBack h
  | fact t fs, h => by
    have hfields := readBack_of_mem h.2
    refine ⟨rfl, Json.nodup_keys_sortMembers _, fieldsReadBack_iff.2 fun p hp => ?_,
      tagged_readBack t h.1⟩
    refine ⟨p.2.readBack, ?_, hfields p hp⟩
    rw [get?_sortMembers_readBack t h.1, Assoc.get?_eq_some_of_mem h.1 hp]
    rfl

theorem itemsReadBack_readBack : ∀ {vs : List Value}, WellFormedItems vs →
    ItemsReadBack vs (readBackItems vs)
  | [], _ => trivial
  | _ :: _, h => ⟨readsBack_readBack h.1, itemsReadBack_readBack h.2⟩

theorem readBack_of_mem : ∀ {fs : List (String × Value)}, WellFormedFields fs →
    ∀ p ∈ fs, p.2.ReadsBack p.2.readBack
  | [], _ => nofun
  | _ :: _, h => List.forall_mem_cons.2 ⟨readsBack_readBack h.1, readBack_of_mem h.2⟩

end

end Value

namespace Json

open Value

variable {fuel depth : Nat} {s r : List Char}

/-! ## Reading step by step -/

theorem skipBlank_cons {c : Char} (hc : isBlank c = false) : skipBlank (c :: s) = c :: s :=
  List.dropWhile_cons_of_neg (hc ▸ Bool.false_ne_true)

theorem not_isBlank_of_isDigit_or_minus {c : Char} (hc : Decimal.isDigit c = true ∨ c = '-') :
    isBlank c = false := by
  have hother {d : Char} (hd : Decimal.isDigit d = false) (hne : d ≠ '-') :
      decide (c = d) = false := decide_eq_false (Decimal.ne_of_isDigit_or_minus hc hd hne)
  rw [isBlank, hother rfl (by decide), hother rfl (by decide), hother rfl (by decide),
    hother rfl (by decide)]
  rfl

/-- What starts with a digit or a minus sign is read as a number. -/
theorem takeValue?_number {c : Char} (hc : Decimal.isDigit c = true ∨ c = '-') :
    takeValue? (fuel + 1) depth (c :: s) =
      (takeNumeral? (c :: s)).bind fun (n, r) =>
        n.value?.map fun
          | .int i => (.int i, r)
          | .float x => (.float x, r) := by
  have hother {d : Char} (hd : Decimal.isDigit d = false) (hne : d ≠ '-') {t : List Char} :
      c :: s ≠ d :: t := fun heq => Decimal.ne_of_isDigit_or_minus hc hd hne (List.cons.inj heq).1
  rw [takeValue?, skipBlank_cons (not_isBlank_of_isDigit_or_minus hc)]
  split
  iterate 6
    · next heq => exact absurd heq (hother rfl (by decide))
  · rfl

theorem writeString_append (t : String) (r : List Char) :
    writeString t ++ r = '"' :: (t.toList.flatMap escape ++ '"' :: r) := by
  rw [writeString, List.cons_append, List.cons_append, List.append_assoc]
  rfl

theorem takeValue?_text (t : String) :
    takeValue? (fuel + 1) depth (writeString t ++ r) = some (.text t, r) := by
  rw [writeString_append, takeValue?, skipBlank_cons (c := '"') rfl]
  simp only [takeString?_written, Option.map_some, String.ofList_toList]

/-- A list is read as its items. -/
theorem takeValue?_list {c : Char} {vs : List Value} (hblank : isBlank c = false) (hc : c ≠ ']')
    (h : takeItems? fuel depth (c :: s) = some (vs, r)) :
    takeValue? (fuel + 1) (depth + 1) ('[' :: c :: s) = some (.list vs, r) := by
  rw [takeValue?, skipBlank_cons (c := '[') rfl]
  simp only [skipBlank_cons hblank]
  split
  · next heq => exact absurd (List.cons.inj heq).1 hc
  · rw [h]
    rfl

/-- An object is read as its members. -/
theorem takeValue?_object {name : String} {ms : List (String × Value)}
    (h : takeMembers? fuel depth (writeString name ++ s) = some (ms, r)) :
    takeValue? (fuel + 1) (depth + 1) ('\x7b' :: (writeString name ++ s)) =
      some (.fact "object" (sortMembers ms), r) := by
  rw [writeString_append] at h ⊢
  rw [takeValue?, skipBlank_cons (c := '\x7b') rfl]
  simp only [skipBlank_cons (c := '"') rfl]
  split
  · next heq => cases heq
  · rw [h]
    rfl

theorem takeItems?_last {v : Value} (h : takeValue? fuel depth s = some (v, ']' :: r)) :
    takeItems? (fuel + 1) depth s = some ([v], r) := by
  rw [takeItems?, h]
  rfl

theorem takeItems?_cons {v : Value} {vs : List Value} {t : List Char}
    (h : takeValue? fuel depth s = some (v, ',' :: t))
    (hrest : takeItems? fuel depth t = some (vs, r)) :
    takeItems? (fuel + 1) depth s = some (v :: vs, r) := by
  rw [takeItems?, h, Option.bind_some]
  simp only [skipBlank_cons (c := ',') rfl, hrest]
  rfl

theorem takeMembers?_last {name : String} {v : Value}
    (h : takeValue? fuel depth s = some (v, '\x7d' :: r)) :
    takeMembers? (fuel + 1) depth (writeString name ++ ':' :: s) = some ([(name, v)], r) := by
  rw [writeString_append, takeMembers?, skipBlank_cons (c := '"') rfl]
  simp only [takeString?_written, Option.bind_some, skipBlank_cons (c := ':') rfl, h,
    skipBlank_cons (c := '\x7d') rfl, String.ofList_toList]

theorem takeMembers?_cons {name : String} {v : Value} {fs : List (String × Value)} {t : List Char}
    (h : takeValue? fuel depth s = some (v, ',' :: t))
    (hrest : takeMembers? fuel depth t = some (fs, r)) :
    takeMembers? (fuel + 1) depth (writeString name ++ ':' :: s) = some ((name, v) :: fs, r) := by
  rw [writeString_append, takeMembers?, skipBlank_cons (c := '"') rfl]
  simp only [takeString?_written, Option.bind_some, skipBlank_cons (c := ':') rfl, h,
    skipBlank_cons (c := ',') rfl, hrest, Option.map_some, String.ofList_toList]

/-! ## Reading what was written -/

theorem ends_writeItems (vs : List Value) (r : List Char) : Ends (writeItems vs ++ r) := by
  cases vs with
  | nil => exact ends_cons (by decide)
  | cons v vs => exact ends_cons (by decide)

theorem ends_writeMembers (fs : List (String × Value)) (r : List Char) :
    Ends (writeMembers fs ++ r) := by
  cases fs with
  | nil => exact ends_cons (by decide)
  | cons f fs => exact ends_cons (by decide)

/-- What is written for a value starts neither with a blank nor with the end of a list. -/
theorem exists_write_eq_cons {v : Value} (hv : v.FloatFree) :
    ∃ c s, write v = c :: s ∧ isBlank c = false ∧ c ≠ ']' := by
  cases v with
  | null => exact ⟨_, _, rfl, by decide⟩
  | bool b => cases b <;> exact ⟨_, _, rfl, by decide⟩
  | int n =>
    obtain ⟨c, s, hwrite, hc⟩ := Decimal.exists_writeInt_eq_cons n.toInt
    exact ⟨c, s, hwrite, not_isBlank_of_isDigit_or_minus hc,
      Decimal.ne_of_isDigit_or_minus hc rfl (by decide)⟩
  | float x => exact hv.elim
  | text t => exact ⟨_, _, rfl, by decide⟩
  | list vs => cases vs <;> exact ⟨_, _, rfl, by decide⟩
  | fact t fs => exact ⟨_, _, rfl, by decide⟩

theorem write_length_pos {v : Value} (hv : v.FloatFree) : 0 < (write v).length := by
  obtain ⟨c, s, hwrite, -⟩ := exists_write_eq_cons hv
  rw [hwrite]
  exact Nat.succ_pos _

mutual

/-- **A written value is read, whatever follows it**, as long as the depth and the number of steps
allow it. -/
theorem takeValue?_write : ∀ {v : Value} {fuel depth : Nat} {r : List Char}, v.FloatFree →
    v.depth ≤ depth → Ends r → 2 * (write v).length ≤ fuel + 1 →
    takeValue? (fuel + 1) depth (write v ++ r) = some (v.readBack, r)
  | .null, _, _, _, _, _, _, _ => rfl
  | .bool true, _, _, _, _, _, _, _ => rfl
  | .bool false, _, _, _, _, _, _, _ => rfl
  | .int n, _, _, r, _, _, hr, _ => by
    obtain ⟨c, s, hwrite, hc⟩ := Decimal.exists_writeInt_eq_cons n.toInt
    have htake := takeNumeral?_writeInt n.toInt hr
    rw [hwrite] at htake
    rw [write, hwrite, List.cons_append, takeValue?_number hc, ← List.cons_append, htake,
      Option.bind_some]
    simp only [value?_writeInt]
    rfl
  | .text t, _, _, _, _, _, _, _ => takeValue?_text t
  | .list [], _, depth, _, _, hdepth, _, _ => by
    obtain ⟨d, rfl⟩ : ∃ d, depth = d + 1 := ⟨depth - 1, (Nat.sub_add_cancel hdepth).symm⟩
    rfl
  | .list (v :: vs), fuel, depth, r, hv, hdepth, hr, hfuel => by
    rw [Value.depth, depthOfItems] at hdepth
    rw [write, List.cons_append, List.length_cons, List.length_append] at hfuel
    have hpos := write_length_pos hv.1
    have htext : write (.list (v :: vs)) ++ r = '[' :: (write v ++ (writeItems vs ++ r)) := by
      simp [write]
    obtain ⟨d, rfl⟩ : ∃ d, depth = d + 1 := ⟨depth - 1, by omega⟩
    obtain ⟨n, rfl⟩ : ∃ n, fuel = n + 1 + 1 := ⟨fuel - 2, by omega⟩
    have hfirst : takeValue? (n + 1) d (write v ++ (writeItems vs ++ r)) =
        some (v.readBack, writeItems vs ++ r) :=
      takeValue?_write hv.1 (by omega) (ends_writeItems vs r) (by omega)
    have hitems := takeItems?_writeItems hv.2 (by omega) (by omega) hfirst
    obtain ⟨c, s, hcons, hblank, hc⟩ := exists_write_eq_cons hv.1
    rw [hcons] at hitems
    rw [htext, hcons]
    exact takeValue?_list hblank hc hitems
  | .fact t fs, fuel, depth, r, hv, hdepth, hr, hfuel => by
    rw [Value.depth] at hdepth
    have htext : write (.fact t fs) ++ r =
        '\x7b' :: (writeString "$type" ++ ':' :: (writeString t ++ (writeMembers fs ++ r))) := by
      simp [write]
    have hlength : (writeMembers fs).length + 2 ≤ (write (.fact t fs)).length := by
      rw [write]
      simp only [List.length_cons, List.length_append]
      omega
    obtain ⟨d, rfl⟩ : ∃ d, depth = d + 1 := ⟨depth - 1, by omega⟩
    obtain ⟨n, rfl⟩ : ∃ n, fuel = n + 1 + 1 := ⟨fuel - 2, by omega⟩
    have htype : takeValue? (n + 1) d (writeString t ++ (writeMembers fs ++ r)) =
        some (.text t, writeMembers fs ++ r) := takeValue?_text t
    rw [htext]
    exact takeValue?_object (takeMembers?_writeMembers hv (by omega) (by omega) htype)

/-- The items after the one that was read last, and the end of the list. -/
theorem takeItems?_writeItems : ∀ {vs : List Value} {fuel depth : Nat} {v : Value}
    {s r : List Char}, FloatFreeItems vs → depthOfItems vs ≤ depth →
    2 * (writeItems vs).length ≤ fuel →
    takeValue? fuel depth s = some (v, writeItems vs ++ r) →
    takeItems? (fuel + 1) depth s = some (v :: readBackItems vs, r)
  | [], _, _, _, _, _, _, _, _, h => takeItems?_last h
  | v :: vs, fuel, depth, _, s, r, hvs, hdepth, hfuel, h => by
    rw [depthOfItems] at hdepth
    rw [writeItems, List.cons_append, List.length_cons, List.length_append] at hfuel
    rw [writeItems, List.cons_append, List.cons_append, List.append_assoc] at h
    have hpos := write_length_pos hvs.1
    obtain ⟨n, rfl⟩ : ∃ n, fuel = n + 1 + 1 := ⟨fuel - 2, by omega⟩
    have hnext : takeValue? (n + 1) depth (write v ++ (writeItems vs ++ r)) =
        some (v.readBack, writeItems vs ++ r) :=
      takeValue?_write hvs.1 (by omega) (ends_writeItems vs r) (by omega)
    exact takeItems?_cons h (takeItems?_writeItems hvs.2 (by omega) (by omega) hnext)

/-- The members after the one that was read last, and the end of the object. -/
theorem takeMembers?_writeMembers : ∀ {fs : List (String × Value)} {fuel depth : Nat}
    {name : String} {v : Value} {s r : List Char}, FloatFreeFields fs → depthOfFields fs ≤ depth →
    2 * (writeMembers fs).length ≤ fuel →
    takeValue? fuel depth s = some (v, writeMembers fs ++ r) →
    takeMembers? (fuel + 1) depth (writeString name ++ ':' :: s) =
      some ((name, v) :: readBackFields fs, r)
  | [], _, _, _, _, _, _, _, _, _, h => takeMembers?_last h
  | (k, v) :: fs, fuel, depth, name, _, s, r, hfs, hdepth, hfuel, h => by
    rw [depthOfFields] at hdepth
    have htext : writeMembers ((k, v) :: fs) ++ r =
        ',' :: (writeString k ++ ':' :: (write v ++ (writeMembers fs ++ r))) := by
      simp [writeMembers]
    have hlength : (write v).length + (writeMembers fs).length + 2 ≤
        (writeMembers ((k, v) :: fs)).length := by
      rw [writeMembers]
      simp only [List.length_cons, List.length_append]
      omega
    obtain ⟨n, rfl⟩ : ∃ n, fuel = n + 1 + 1 := ⟨fuel - 2, by omega⟩
    have hnext : takeValue? (n + 1) depth (write v ++ (writeMembers fs ++ r)) =
        some (v.readBack, writeMembers fs ++ r) :=
      takeValue?_write hfs.1 (by omega) (ends_writeMembers fs r) (by omega)
    rw [htext] at h
    exact takeMembers?_cons h (takeMembers?_writeMembers hfs.2 (by omega) (by omega) hnext)

end

/-- The value that is read for a whole written text. -/
theorem read?_json {v : Value} (hfloat : v.FloatFree) (hdepth : v.depth ≤ maxDepth) :
    read? v.json = some v.readBack := by
  have htake : takeValue? (2 * (write v).length + 1 + 1) maxDepth (write v ++ []) =
      some (v.readBack, []) := takeValue?_write hfloat hdepth ends_nil (by omega)
  rw [List.append_nil] at htake
  rw [read?, Value.json, String.toList_ofList]
  simp only [htake]
  rfl

end Json

namespace Fact

/-- A written fact is read back, and every name stands for its field, or else for the type. -/
theorem exists_ofJson_json (f : Fact) (hfloat : f.toValue.FloatFree)
    (hdepth : f.toValue.depth ≤ Json.maxDepth) :
    ∃ g, Fact.ofJson f.objectType f.json = .ok g ∧ g.objectType = f.objectType ∧
      ∀ k, g.field? k =
        ((f.field? k).map Value.readBack <|>
          if "$type" = k then some (.text f.objectType) else none) := by
  have hread : Json.read? f.json = some f.toValue.readBack := Json.read?_json hfloat hdepth
  refine ⟨⟨f.objectType, .ofList (Json.sortMembers (("$type", .text f.objectType) ::
    Value.readBackFields f.fields.entries))⟩, ?_, rfl, fun k => ?_⟩
  · rw [ofJson, hread, toValue, Value.readBack]
  · show (OrderedMap.ofList _).entries.get? k = _
    rw [OrderedMap.entries_ofList (Json.nodup_keys_sortMembers _),
      Value.get?_sortMembers_readBack _ f.fields.nodup]
    rfl

/-- **What a written fact is read back as**: a fact of the type that is asked for, with what is read
for each of its fields.  Its type is there as well, as the text under `$type`, unless a field of its
own has this name; and there is nothing else. -/
theorem ofJson_json (f : Fact) (hwf : f.toValue.WellFormed) (hfloat : f.toValue.FloatFree)
    (hdepth : f.toValue.depth ≤ 127) :
    ∃ g, Fact.ofJson f.objectType f.json = .ok g ∧ g.objectType = f.objectType ∧
      (∀ k v, f.field? k = some v → ∃ w, g.field? k = some w ∧ v.ReadsBack w) ∧
      (f.field? "$type" = none → g.field? "$type" = some (.text f.objectType)) ∧
      ∀ k, k ≠ "$type" → f.field? k = none → g.field? k = none := by
  obtain ⟨g, hg, htype, hfield⟩ := exists_ofJson_json f hfloat hdepth
  refine ⟨g, hg, htype, fun k v hv => ⟨v.readBack, ?_, ?_⟩, fun hnone => ?_, fun k hk hnone => ?_⟩
  · rw [hfield, hv]
    rfl
  · exact Value.readBack_of_mem hwf.2 (k, v) (OrderedMap.get?_eq_some_iff.1 hv)
  · rw [hfield, hnone, if_pos rfl]
    rfl
  · rw [hfield, hnone, if_neg (Ne.symm hk)]
    rfl

/-- The fields of an order survive, and so does the type of its customer. -/
theorem ofJson_json_of_order :
    ∃ g, Fact.ofJson "Order" (((ofType "Order").set "note" (.text "\"\\\n\x01é")).set "customer"
        (.fact "Customer" [("ids", .list [.int Int64.minValue, .null])])).json = .ok g ∧
      g.field? "$type" = some (.text "Order") ∧
      g.field? "note" = some (.text "\"\\\n\x01é") ∧
      ∃ fields, g.field? "customer" = some (.fact "object" fields) ∧
        Assoc.get? "$type" fields = some (.text "Customer") ∧
        Assoc.get? "ids" fields = some (.list [.int Int64.minValue, .null]) := by
  obtain ⟨g, hg, -, hfields, htype, -⟩ := ofJson_json
    (((ofType "Order").set "note" (.text "\"\\\n\x01é")).set "customer"
      (.fact "Customer" [("ids", .list [.int Int64.minValue, .null])]))
    ⟨by decide, trivial, ⟨by decide, ⟨trivial, trivial, trivial⟩, trivial⟩, trivial⟩
    ⟨trivial, ⟨⟨trivial, trivial, trivial⟩, trivial⟩, trivial⟩ (by decide)
  obtain ⟨note, hnote, hnoteread⟩ := hfields "note" _ rfl
  obtain ⟨customer, hcustomer, hread⟩ := hfields "customer" _ rfl
  cases customer with
  | fact t fields =>
    obtain ⟨rfl, -, ⟨⟨ids, hids, hidsread⟩, -⟩, htag, -⟩ := hread
    refine ⟨g, hg, htype rfl, hnoteread ▸ hnote, fields, hcustomer, htag (by decide), ?_⟩
    rw [hids]
    match ids, hidsread with
    | .list [first, second], ⟨hfirst, hsecond, _⟩ =>
      obtain rfl : first = .int Int64.minValue := hfirst
      obtain rfl : second = .null := hsecond
      rfl
  | _ => cases hread

/-- **A field called `$type` takes the place of the type.** -/
theorem type_field_counts :
    ¬ ∀ f : Fact, f.toValue.WellFormed → f.toValue.FloatFree → f.toValue.depth ≤ 127 →
      ∃ g, Fact.ofJson f.objectType f.json = .ok g ∧
        g.field? "$type" = some (.text f.objectType) := by
  intro hall
  let f := (ofType "Order").set "$type" (.int 5)
  have hfloat : f.toValue.FloatFree := ⟨trivial, trivial⟩
  have hdepth : f.toValue.depth ≤ 127 := by decide
  obtain ⟨g, hg, htype⟩ := hall f ⟨by decide, trivial, trivial⟩ hfloat hdepth
  obtain ⟨h, hh, -, hfield⟩ := exists_ofJson_json f hfloat hdepth
  obtain rfl : g = h := Except.ok.inj (hg.symm.trans hh)
  rw [hfield] at htype
  cases htype

end Fact
end RuleAggregate
