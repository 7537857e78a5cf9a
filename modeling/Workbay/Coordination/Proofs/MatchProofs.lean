import Workbay.Coordination.Events

/-!
# What fits a match object

A key of a match object that an event lacks is compared as `null`, so that a match object with
`null` under that key takes the event.
-/

namespace Workbay.Coordination

open List

/-- Equality of JSON values: of one type, numbers by value, objects whatever the order of their
members. -/
inductive JsonEq : Json → Json → Prop
  | null : JsonEq .null .null
  | bool (b : Bool) : JsonEq (.bool b) (.bool b)
  | int (i : Int) : JsonEq (.int i) (.int i)
  | float (neg : Bool) (digits : Nat) (exp : Int) :
    JsonEq (.float neg digits exp) (.float neg digits exp)
  | zero (neg neg' : Bool) (exp exp' : Int) : JsonEq (.float neg 0 exp) (.float neg' 0 exp')
  | str (s : String) : JsonEq (.str s) (.str s)
  | arr {xs ys : List Json} (hlength : xs.length = ys.length)
    (hvalues : ∀ p ∈ xs.zip ys, JsonEq p.1 p.2) : JsonEq (.arr xs) (.arr ys)
  | obj {xs ys : Fields} (hkeys : ∀ key, key ∈ xs.map Prod.fst ↔ key ∈ ys.map Prod.fst)
    (hvalues : ∀ key x y, (key, x) ∈ xs → ys.get? key = some y → JsonEq x y) :
    JsonEq (.obj xs) (.obj ys)

mutual

theorem jsonEqual_iff : (x y : Json) → (jsonEqual x y = true ↔ JsonEq x y)
  | .arr xs, .arr ys => by
    rw [jsonEqual, Bool.and_eq_true, beq_iff_eq, jsonEqualZip_iff xs ys]
    exact ⟨fun h => .arr h.1 h.2, by rintro ⟨⟩; exact ⟨by assumption, by assumption⟩⟩
  | .obj xs, .obj ys => by
    rw [jsonEqual, Bool.and_eq_true, Bool.and_eq_true, decide_eq_true_iff, decide_eq_true_iff,
      jsonEqualItems_iff xs ys]
    refine ⟨fun h => .obj (fun key => ⟨h.1.1 key, h.1.2 key⟩) h.2, ?_⟩
    rintro ⟨⟩
    rename_i hkeys hvalues
    exact ⟨⟨fun key => (hkeys key).mp, fun key => (hkeys key).mpr⟩, hvalues⟩
  | .float neg digits exp, .float neg' digits' exp' => by
    simp only [jsonEqual, Bool.or_eq_true, Bool.and_eq_true, beq_iff_eq]
    constructor
    · rintro (⟨⟨rfl, rfl⟩, rfl⟩ | ⟨rfl, rfl⟩)
      · exact .float neg digits exp
      · exact .zero neg neg' exp exp'
    · rintro ⟨⟩
      · exact .inl ⟨⟨rfl, rfl⟩, rfl⟩
      · exact .inr ⟨rfl, rfl⟩
  | .null, .null => ⟨fun _ => .null, fun _ => rfl⟩
  | .bool a, .bool b => by
    rw [jsonEqual, beq_iff_eq]
    exact ⟨fun h => h ▸ .bool a, by rintro ⟨⟩; rfl⟩
  | .int a, .int b => by
    rw [jsonEqual, beq_iff_eq]
    exact ⟨fun h => h ▸ .int a, by rintro ⟨⟩; rfl⟩
  | .str s, .str t => by
    rw [jsonEqual, beq_iff_eq]
    exact ⟨fun h => h ▸ .str s, by rintro ⟨⟩; rfl⟩
  | .null, .bool _ | .null, .int _ | .null, .float .. | .null, .str _ | .null, .arr _
  | .null, .obj _ | .bool _, .null | .bool _, .int _ | .bool _, .float .. | .bool _, .str _
  | .bool _, .arr _ | .bool _, .obj _ | .int _, .null | .int _, .bool _ | .int _, .float ..
  | .int _, .str _ | .int _, .arr _ | .int _, .obj _ | .float .., .null | .float .., .bool _
  | .float .., .int _ | .float .., .str _ | .float .., .arr _ | .float .., .obj _
  | .str _, .null | .str _, .bool _ | .str _, .int _ | .str _, .float .. | .str _, .arr _
  | .str _, .obj _ | .arr _, .null | .arr _, .bool _ | .arr _, .int _ | .arr _, .float ..
  | .arr _, .str _ | .arr _, .obj _ | .obj _, .null | .obj _, .bool _ | .obj _, .int _
  | .obj _, .float .. | .obj _, .str _ | .obj _, .arr _ =>
    ⟨fun h => (by cases h), fun h => (by cases h)⟩

theorem jsonEqualZip_iff : (xs ys : List Json) →
    (jsonEqualZip xs ys = true ↔ ∀ p ∈ xs.zip ys, JsonEq p.1 p.2)
  | [], _ => by simp [jsonEqualZip]
  | _ :: _, [] => by simp [jsonEqualZip]
  | x :: xs, y :: ys => by
    rw [jsonEqualZip, Bool.and_eq_true, jsonEqual_iff x y, jsonEqualZip_iff xs ys,
      zip_cons_cons, forall_mem_cons]

theorem jsonEqualItems_iff : (xs ys : Fields) → (jsonEqualItems xs ys = true ↔
    ∀ key x y, (key, x) ∈ xs → ys.get? key = some y → JsonEq x y)
  | [], _ => by simp [jsonEqualItems]
  | (key, x) :: xs, ys => by
    have hfirst : ((ys.get? key).all fun y => jsonEqual x y) = true ↔
        ∀ y, ys.get? key = some y → JsonEq x y := by
      rw [Option.all_eq_true]
      exact forall₂_congr fun y _ => jsonEqual_iff x y
    rw [jsonEqualItems, Bool.and_eq_true, hfirst, jsonEqualItems_iff xs ys]
    constructor
    · rintro ⟨hx, hxs⟩ k z y hmem hget
      rcases mem_cons.mp hmem with heq | hmem
      · cases heq
        exact hx y hget
      · exact hxs k z y hmem hget
    · intro h
      exact ⟨fun y => h key x y (mem_cons_self ..),
        fun k z y hmem => h k z y (mem_cons_of_mem _ hmem)⟩

end

variable {matching fields : Fields}

/-- Every key of the match object is among the fields, with an equal value. -/
def Matches (matching fields : Fields) : Prop :=
  ∀ entry ∈ matching, ∃ x, fields.get? entry.1 = some x ∧ JsonEq x entry.2

/-- The fields lack a key of the match object, which has `null` under every such key and a value
equal to the field under every other one. -/
def LacksNull (matching fields : Fields) : Prop :=
  (∃ entry ∈ matching, fields.get? entry.1 = none) ∧
    ∀ entry ∈ matching, match fields.get? entry.1 with
      | none => entry.2 = .null
      | some x => JsonEq x entry.2

/-- One key fits where the field is equal, or missing and to be `null`. -/
theorem fits_iff : fits matching fields = true ↔
    ∀ entry ∈ matching, match fields.get? entry.1 with
      | none => entry.2 = .null
      | some x => JsonEq x entry.2 := by
  rw [fits, all_eq_true]
  refine forall₂_congr fun entry _ => ?_
  rw [jsonEqual_iff, Dict.getD]
  cases fields.get? entry.1 with
  | none =>
    constructor
    · intro h
      generalize entry.2 = value at h ⊢
      cases h
      rfl
    · intro h
      rw [h]
      exact .null
  | some x => exact Iff.rfl

theorem Matches.fits (h : Matches matching fields) : fits matching fields = true := by
  refine fits_iff.mpr fun entry hentry => ?_
  obtain ⟨x, hx, heq⟩ := h entry hentry
  simp only [hx]
  exact heq

/-- Fields that fit match, unless they lack a key that is to be `null`. -/
theorem fits_iff_matches : (fits matching fields = true ↔ Matches matching fields) ↔
    ¬ LacksNull matching fields := by
  constructor
  · rintro h ⟨⟨entry, hentry, hnone⟩, hall⟩
    obtain ⟨x, hx, -⟩ := h.mp (fits_iff.mpr hall) entry hentry
    rw [hnone] at hx
    cases hx
  · intro h
    refine ⟨fun hfits entry hentry => ?_, Matches.fits⟩
    have hall := fits_iff.mp hfits
    have hentries := hall entry hentry
    cases hget : fields.get? entry.1 with
    | none => exact absurd ⟨⟨entry, hentry, hget⟩, hall⟩ h
    | some x =>
      simp only [hget] at hentries
      exact ⟨x, rfl, hentries⟩

theorem settle_released {kind eventId : String} {now : ℚ} {record : HoldRecord}
    (hlive : record.released = false) (hexpires : now < record.expiresAt)
    (hkind : record.untilEvent = some kind) (hmatching : record.matching = some matching) :
    ((record.expire now).settle kind fields eventId now).released = true ↔
      fits matching fields = true := by
  have hkeep : record.expire now = record := by
    rw [HoldRecord.expire, if_neg fun h => absurd h.2 (not_le.mpr hexpires)]
  have hawaits : record.awaits kind fields now = fits matching fields := by
    simp [HoldRecord.awaits, hlive, hexpires, hkind, hmatching]
  rw [hkeep, HoldRecord.settle, hawaits]
  by_cases hfits : fits matching fields = true
  · rw [if_pos hfits]
    exact ⟨fun _ => hfits, fun _ => rfl⟩
  · rw [if_neg hfits, hlive]
    exact ⟨fun h => (by cases h), fun h => absurd h hfits⟩

theorem isAwaited_iff {kind : String} {afterSeq : Int} {record : EventRecord}
    (hseq : afterSeq < record.seq) (hkind : record.kind = kind)
    (hfields : record.fields = some fields) :
    record.isAwaited kind (some matching) afterSeq = true ↔ fits matching fields = true := by
  simp [EventRecord.isAwaited, hseq, hkind, hfields]

theorem event_get? {kind eventId : String} {now : ℚ} {holds : List HoldRecord} (i : Nat) :
    (event kind fields eventId now holds)[i]? =
      holds[i]?.map fun record => (record.expire now).settle kind fields eventId now := by
  rw [event, getElem?_map, getElem?_map, Option.map_map]
  rfl

theorem wait_eq_iff {kind : String} {afterSeq : Int} {earlier later : List EventRecord}
    {logged : EventRecord} (hearlier : wait kind (some matching) afterSeq earlier = none) :
    wait kind (some matching) afterSeq (earlier ++ logged :: later) = some logged ↔
      logged.isAwaited kind (some matching) afterSeq = true := by
  rw [wait] at hearlier
  rw [wait, find?_append, hearlier, Option.none_or]
  constructor
  · exact fun h => find?_some h
  · exact fun h => find?_cons_of_pos h

/-- Both operations take an event just where it matches, unless its fields lack a key that the match
object has with `null`. -/
theorem event_wait_exact_iff {kind eventId : String} {now : ℚ} {holds : List HoldRecord} {i : Nat}
    {record : HoldRecord} {afterSeq : Int} {earlier later : List EventRecord}
    {logged : EventRecord} (hrecord : holds[i]? = some record) (hlive : record.released = false)
    (hexpires : now < record.expiresAt) (huntil : record.untilEvent = some kind)
    (hmatching : record.matching = some matching) (hseq : afterSeq < logged.seq)
    (hkind : logged.kind = kind) (hfields : logged.fields = some fields)
    (hearlier : wait kind (some matching) afterSeq earlier = none) :
    (((event kind fields eventId now holds)[i]?.any (·.released) = true ↔
        Matches matching fields) ∧
      (wait kind (some matching) afterSeq (earlier ++ logged :: later) = some logged ↔
        Matches matching fields)) ↔ ¬ LacksNull matching fields := by
  rw [event_get?, hrecord, Option.map_some, Option.any_some,
    settle_released hlive hexpires huntil hmatching, wait_eq_iff hearlier,
    isAwaited_iff hseq hkind hfields, and_self, fits_iff_matches]

/-- A hold that waits for a note of any kind, which has to be `null`. -/
def noteHold : HoldRecord where
  resource := "main"
  owner := "lane"
  token := 1
  expiresAt := 10
  untilEvent := some "main.merged"
  matching := some [("note", .null)]

theorem event_wait_exact_iff_merged :
    (((event "main.merged" [("note", .null)] "e1" 5 [noteHold])[0]?.any (·.released) = true ↔
        Matches [("note", .null)] [("note", .null)]) ∧
      (wait "main.merged" (some [("note", .null)]) 0
          ([] ++ ⟨"main.merged", 1, some [("note", .null)]⟩ :: []) =
          some ⟨"main.merged", 1, some [("note", .null)]⟩ ↔
        Matches [("note", .null)] [("note", .null)])) ↔
      ¬ LacksNull [("note", .null)] [("note", .null)] :=
  event_wait_exact_iff (show [noteHold][0]? = some noteHold from rfl) rfl (by norm_num [noteHold])
    rfl rfl (by decide) rfl rfl rfl

/-- A merge without a note releases the hold, though it lacks the key. -/
theorem missing_note_released :
    (event "main.merged" [("sha", .str "f00"), ("lane", .str "a")] "e1" 5 [noteHold])[0]?.any
        (·.released) = true ∧
      ¬ Matches [("note", .null)] [("sha", .str "f00"), ("lane", .str "a")] := by
  have hfits : fits [("note", .null)] [("sha", .str "f00"), ("lane", .str "a")] = true := by decide
  refine ⟨?_, fun h => ?_⟩
  · rw [event_get?, getElem?_cons_zero, Option.map_some, Option.any_some,
      settle_released rfl (by norm_num [noteHold]) rfl rfl]
    exact hfits
  · obtain ⟨x, hx, -⟩ := h _ (mem_singleton.mpr rfl)
    simp [Dict.get?] at hx

end Workbay.Coordination
