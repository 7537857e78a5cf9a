import Workbay.Manifest.Proofs.AdjacencyProofs
import Workbay.Manifest.Proofs.ValidateProofs

/-!
# Proofs: a contraction keeps the manifest valid and its order
-/

namespace Workbay.Manifest

open Relation Workbay.Graph List

/-! ## The fields of a contracted manifest -/

section

variable {removed : List String} {data : Fields}

theorem get?_contractFields (key : String) :
    Dict.get? (contractFields removed data) key =
      (data.get? key).map (contractValue removed key) :=
  Dict.get?_map_entries data (contractValue removed) key

theorem isSome_obj?_contractValue (key : String) (value : Json) :
    (contractValue removed key value).obj?.isSome = value.obj?.isSome := by
  unfold contractValue
  cases value <;> simp only [] <;> repeat' split
  all_goals rfl

theorem isSome_arr?_contractValue (key : String) (value : Json) :
    (contractValue removed key value).arr?.isSome = value.arr?.isSome := by
  unfold contractValue
  cases value <;> simp only [] <;> repeat' split
  all_goals rfl

variable {key x : String}

theorem contractValue_eq_null {value : Json} :
    contractValue removed key value = .null ↔ value = .null := by
  unfold contractValue
  cases value <;> simp only [] <;> repeat' split
  all_goals simp

theorem members_lanes : members (contractFields removed data) "lanes" =
    (members data "lanes").filter fun entry => entry.1 ∉ removed := by
  unfold members
  rw [get?_contractFields]
  rcases data.get? "lanes" with _ | (_ | _ | _ | _ | _ | _ | _) <;> rfl

theorem members_colours : members (contractFields removed data) "colour_classes" =
    (members data "colour_classes").filter fun entry => entry.1 ∉ removed := by
  unfold members
  rw [get?_contractFields]
  rcases data.get? "colour_classes" with _ | (_ | _ | _ | _ | _ | _ | _) <;> rfl

theorem members_headings : members (contractFields removed data) "heading_to_lane" =
    (members data "heading_to_lane").filter fun entry => !isRemoved removed (some entry.2) := by
  unfold members
  rw [get?_contractFields]
  rcases data.get? "heading_to_lane" with _ | (_ | _ | _ | _ | _ | _ | _) <;> rfl

theorem members_graph (hkey : key = "depends_on" ∨ key = "downstream") :
    members (contractFields removed data) key =
      writeAdjacency (contractAdjacency (adjacencyOf data key) removed).contracted := by
  unfold adjacencyOf members
  rw [get?_contractFields]
  rcases hkey with rfl | rfl
  · rcases data.get? "depends_on" with _ | (_ | _ | _ | _ | _ | _ | _) <;> rfl
  · rcases data.get? "downstream" with _ | (_ | _ | _ | _ | _ | _ | _) <;> rfl

theorem elements_mergeOrder : elements (contractFields removed data) "merge_order" =
    (elements data "merge_order").filter fun entry => !isRemoved removed (some entry) := by
  unfold elements
  rw [get?_contractFields]
  rcases data.get? "merge_order" with _ | (_ | _ | _ | _ | _ | _ | _) <;> rfl

theorem elements_conflicts : elements (contractFields removed data) "conflict_edges" =
    (elements data "conflict_edges").filter fun entry => !touchesRemoved removed entry := by
  unfold elements
  rw [get?_contractFields]
  rcases data.get? "conflict_edges" with _ | (_ | _ | _ | _ | _ | _ | _) <;> rfl

theorem elements_routes (hkey : key = "plan_routing_hints" ∨ key = "routing") :
    elements (contractFields removed data) key =
      (elements data key).filter fun entry => !routesToRemoved removed entry := by
  unfold elements
  rw [get?_contractFields]
  rcases hkey with rfl | rfl
  · rcases data.get? "plan_routing_hints" with _ | (_ | _ | _ | _ | _ | _ | _) <;> rfl
  · rcases data.get? "routing" with _ | (_ | _ | _ | _ | _ | _ | _) <;> rfl

theorem readAdjacency_writeAdjacency (adjacency : Dict String (List String)) :
    readAdjacency (writeAdjacency adjacency) = adjacency := by
  unfold readAdjacency writeAdjacency
  rw [List.map_map]
  refine (List.map_congr_left fun entry _ => ?_).trans (List.map_id adjacency)
  exact Prod.ext rfl (texts_map_str entry.2)

theorem adjacencyOf_contractFields (hkey : key = "depends_on" ∨ key = "downstream") :
    adjacencyOf (contractFields removed data) key =
      (contractAdjacency (adjacencyOf data key) removed).contracted := by
  rw [adjacencyOf, members_graph hkey, readAdjacency_writeAdjacency]

/-- An edge of a graph of a manifest. -/
def EdgeOf (data : Fields) (key : String) : String → String → Prop :=
  Step (successors (adjacencyOf data key))

theorem edgeOf_contractFields (hkey : key = "depends_on" ∨ key = "downstream") {y : String} :
    EdgeOf (contractFields removed data) key x y ↔
      Bypass (EdgeOf data key) (· ∈ removed) x y := by
  unfold EdgeOf
  rw [adjacencyOf_contractFields hkey]
  exact step_contracted_iff

theorem reaches_contractFields (hkey : key = "depends_on" ∨ key = "downstream") {y : String}
    (hx : x ∉ removed) (hy : y ∉ removed) :
    ReflTransGen (EdgeOf (contractFields removed data) key) x y ↔
      ReflTransGen (EdgeOf data key) x y := by
  have hsame : EdgeOf (contractFields removed data) key =
      Bypass (EdgeOf data key) (· ∈ removed) :=
    funext fun x => funext fun y => propext (edgeOf_contractFields hkey)
  rw [hsame]
  exact reflTransGen_bypass_iff hx hy

theorem mem_laneIdsOf_contractFields :
    x ∈ laneIdsOf (contractFields removed data) ↔ x ∈ laneIdsOf data ∧ x ∉ removed := by
  unfold laneIdsOf
  rw [members_lanes]
  constructor
  · intro h
    obtain ⟨entry, hentry, rfl⟩ := mem_map.mp h
    obtain ⟨hin, hnot⟩ := mem_filter.mp hentry
    exact ⟨mem_map.mpr ⟨entry, hin, rfl⟩, by simpa using hnot⟩
  · rintro ⟨h, hnot⟩
    obtain ⟨entry, hin, rfl⟩ := mem_map.mp h
    exact mem_map.mpr ⟨entry, mem_filter.mpr ⟨hin, by simpa using hnot⟩, rfl⟩

theorem namesLane_contractFields {value : Option Json}
    (h : namesLane (laneIdsOf data) value = true) (hnot : isRemoved removed value = false) :
    namesLane (laneIdsOf (contractFields removed data)) value = true := by
  unfold namesLane isRemoved at *
  cases hname : value.bind Json.str? with
  | none => simp [hname] at h
  | some name =>
    rw [hname] at h hnot
    simp only [Option.any_some, decide_eq_true_eq, decide_eq_false_iff_not] at h hnot ⊢
    exact mem_laneIdsOf_contractFields.mpr ⟨h, hnot⟩

end

section

variable {host : Host} {data : Fields} {removed : List String}

variable {key x y : String} {laneIds : List String} {entry : String × Json}

theorem hasShape_contractFields {shape : Json → Bool}
    (hshape : ∀ value, shape (contractValue removed key value) = shape value)
    (h : HasShape shape (data.get? key)) :
    HasShape shape (Dict.get? (contractFields removed data) key) := by
  rw [get?_contractFields]
  intro value hvalue hne
  obtain ⟨old, hold, rfl⟩ := Option.map_eq_some_iff.mp hvalue
  rw [hshape]
  exact h old hold fun hnull => hne (contractValue_eq_null.mpr hnull)

theorem get?_contractFields_of_ne
    (hkey : key ∉ ["lanes", "colour_classes", "depends_on", "downstream", "heading_to_lane",
      "merge_order", "conflict_edges", "plan_routing_hints", "routing"]) :
    Dict.get? (contractFields removed data) key = data.get? key := by
  rw [get?_contractFields]
  have hsame : contractValue removed key = id := by
    funext value
    simp only [mem_cons, not_mem_nil, or_false, not_or] at hkey
    unfold contractValue
    cases value <;> simp [hkey]
  rw [hsame, Option.map_id_fun, id]

theorem any_contractFields {shape : Json → Bool}
    (hshape : ∀ value, shape (contractValue removed key value) = shape value)
    (h : (data.get? key).any shape = true) :
    (Dict.get? (contractFields removed data) key).any shape = true := by
  rw [get?_contractFields]
  cases hget : data.get? key with
  | none => simp [hget] at h
  | some value =>
    rw [hget] at h
    simpa [hshape] using h

theorem checkShapes_contractFields (h : checkShapes data = .ok ()) :
    checkShapes (contractFields removed data) = .ok () := by
  unfold checkShapes checkField at h ⊢
  simp only [check_then_eq_ok, checkAll_eq_ok, require_eq_ok, checkShape_eq_ok] at h ⊢
  obtain ⟨hrequired, hmerge, hlanes, hdown, hlanding, hbranch, hplan, hheading, hhints⟩ := h
  refine ⟨fun key hkey => ?_, any_contractFields (isSome_arr?_contractValue _) hmerge,
    any_contractFields (isSome_obj?_contractValue _) hlanes,
    any_contractFields (isSome_obj?_contractValue _) hdown, ?_, ?_, ?_,
    hasShape_contractFields (isSome_obj?_contractValue _) hheading,
    hasShape_contractFields (isSome_arr?_contractValue _) hhints⟩
  · have hpresent := hrequired key hkey
    unfold requireKey at hpresent ⊢
    rw [require_eq_ok] at hpresent ⊢
    rw [get?_contractFields]
    simpa using hpresent
  · unfold checkLandingPolicy at hlanding ⊢
    rw [get?_contractFields_of_ne (by decide)]
    exact hlanding
  · rw [get?_contractFields_of_ne (by decide)]
    exact hbranch
  · rw [get?_contractFields_of_ne (by decide)]
    exact hplan

theorem unknownLanes_eq_nil {values : List Json} : unknownLanes laneIds values = [] ↔
      ∀ value ∈ values, ∀ name, value.str? = some name → name ∈ laneIds := by
  unfold unknownLanes
  rw [filter_eq_nil_iff]
  simp only [mem_filterMap, decide_eq_true_eq, not_not]
  constructor
  · intro h value hvalue name hname
    exact h name ⟨value, hvalue, hname⟩
  · rintro h name ⟨value, hvalue, hname⟩
    exact h value hvalue name hname

theorem mergeOrder_contractFields
    (h : unknownLanes (laneIdsOf data) (elements data "merge_order") = []) :
    unknownLanes (laneIdsOf (contractFields removed data))
      (elements (contractFields removed data) "merge_order") = [] := by
  rw [elements_mergeOrder, unknownLanes_eq_nil]
  rw [unknownLanes_eq_nil] at h
  intro value hvalue name hname
  obtain ⟨hin, hnot⟩ := mem_filter.mp hvalue
  refine mem_laneIdsOf_contractFields.mpr ⟨h value hin name hname, ?_⟩
  simpa [isRemoved, hname] using hnot

theorem keptOf_subset {adjacency : Dict String (List String)}
    (hnext : ∀ x y, Step (successors adjacency) x y → y ∈ laneIds) {source : String}
    {targets : List String} (htargets : ∀ target ∈ targets, target ∈ laneIds) :
    ∀ node ∈ (keptOf adjacency removed source targets).targets,
      node ∈ laneIds ∧ node ∉ removed := by
  intro node hnode
  obtain ⟨target, htarget, ⟨hnot, -⟩, rfl | ⟨-, hpath⟩⟩ := mem_keptOf.mp hnode
  · exact ⟨htargets target htarget, hnot⟩
  · refine ⟨?_, hnot⟩
    rcases ReflTransGen.cases_tail hpath with rfl | ⟨last, -, hstep⟩
    · exact htargets node htarget
    · refine hnext last node ?_
      unfold Step removedSuccessors at hstep
      split at hstep
      · exact hstep
      · cases hstep

theorem mem_writeAdjacency_contracted {adjacency : Dict String (List String)}
    (h : entry ∈ writeAdjacency (contractAdjacency adjacency removed).contracted) :
    entry.1 ∉ removed ∧ ∃ targets, (entry.1, targets) ∈ adjacency ∧
      entry.2 = .arr ((keptOf adjacency removed entry.1 targets).targets.map .str) := by
  obtain ⟨⟨source, kept⟩, hkept, rfl⟩ := mem_map.mp h
  obtain ⟨⟨source', targets⟩, hentry, heq⟩ := mem_map.mp hkept
  obtain ⟨rfl, rfl⟩ := Prod.mk.inj heq
  obtain ⟨hin, hnot⟩ := mem_filter.mp hentry
  exact ⟨by simpa using hnot, targets, hin, rfl⟩

theorem exists_entry_of_step {data : Fields} (h : EdgeOf data key x y) :
    ∃ value, (x, value) ∈ members data key ∧ y ∈ texts value := by
  unfold EdgeOf Step successors Dict.getD at h
  cases hget : Dict.get? (adjacencyOf data key) x with
  | none => simp [hget] at h
  | some targets =>
    rw [hget] at h
    obtain ⟨⟨source, value⟩, hentry, heq⟩ := mem_map.mp (Dict.mem_of_get? hget)
    obtain ⟨rfl, rfl⟩ := Prod.mk.inj heq
    exact ⟨value, hentry, h⟩

theorem checkDownstream_eq_ok : checkDownstream laneIds entry = .ok () ↔
      entry.1 ∈ laneIds ∧ entry.2.arr?.isSome = true ∧
        ∀ target ∈ texts entry.2, target ∈ laneIds := by
  obtain ⟨source, value⟩ := entry
  unfold checkDownstream
  rw [check_then_eq_ok, require_eq_ok]
  refine and_congr_right fun _ => ?_
  cases value with
  | arr values =>
    simp only [require_eq_ok, unknownLanes_eq_nil, Json.arr?, Option.isSome_some, true_and]
    constructor
    · intro h target htarget
      obtain ⟨value, hvalue, hname⟩ := mem_filterMap.mp htarget
      exact h value hvalue target hname
    · intro h value hvalue name hname
      exact h name (mem_filterMap.mpr ⟨value, hvalue, hname⟩)
  | _ => simp [Json.arr?]

theorem graph_contractFields (hkey : key = "depends_on" ∨ key = "downstream")
    (hentries : ∀ entry ∈ members data key,
      entry.1 ∈ laneIdsOf data ∧ ∀ target ∈ texts entry.2, target ∈ laneIdsOf data) :
    ∀ entry ∈ members (contractFields removed data) key,
      entry.1 ∈ laneIdsOf (contractFields removed data) ∧ ∃ targets : List String,
        entry.2 = .arr (targets.map .str) ∧
          ∀ target ∈ targets, target ∈ laneIdsOf (contractFields removed data) := by
  rw [members_graph hkey]
  intro entry hentry
  obtain ⟨hnot, targets, hin, hvalue⟩ := mem_writeAdjacency_contracted hentry
  obtain ⟨⟨source, value⟩, hmember, heq⟩ := mem_map.mp hin
  obtain ⟨hsource, htargets⟩ := Prod.mk.inj heq
  have hsource : source = entry.1 := hsource
  obtain ⟨hlane, hnames⟩ := hentries (source, value) hmember
  refine ⟨mem_laneIdsOf_contractFields.mpr ⟨hsource ▸ hlane, hnot⟩, _, hvalue, ?_⟩
  intro target htarget
  refine mem_laneIdsOf_contractFields.mpr (keptOf_subset (fun x y hstep => ?_) ?_ target htarget)
  · obtain ⟨value', hmember', hy⟩ := @exists_entry_of_step key _ _ data hstep
    exact (hentries _ hmember').2 y hy
  · intro target' htarget'
    rw [← htargets] at htarget'
    exact hnames target' htarget'

theorem IsPrereqEntry.texts_mem (h : IsPrereqEntry laneIds entry) :
    ∀ target ∈ texts entry.2, target ∈ laneIds := by
  obtain ⟨-, values, hvalues, hnames⟩ := h
  rw [hvalues]
  intro target htarget
  obtain ⟨value, hvalue, hname⟩ := mem_filterMap.mp htarget
  simpa [namesLane, hname] using hnames value hvalue

theorem dependsOn_contractFields
    (h : ∀ entry ∈ members data "depends_on", IsPrereqEntry (laneIdsOf data) entry) :
    ∀ entry ∈ members (contractFields removed data) "depends_on",
      IsPrereqEntry (laneIdsOf (contractFields removed data)) entry := by
  intro entry hentry
  obtain ⟨hsource, targets, hvalue, htargets⟩ := graph_contractFields (.inl rfl)
    (fun entry hentry => ⟨(h entry hentry).1, (h entry hentry).texts_mem⟩) entry hentry
  refine ⟨hsource, _, hvalue, fun value hmem => ?_⟩
  obtain ⟨target, htarget, rfl⟩ := mem_map.mp hmem
  simpa [namesLane, Json.str?] using htargets target htarget

theorem downstream_contractFields
    (h : ∀ entry ∈ members data "downstream", checkDownstream (laneIdsOf data) entry = .ok ()) :
    ∀ entry ∈ members (contractFields removed data) "downstream",
      checkDownstream (laneIdsOf (contractFields removed data)) entry = .ok () := by
  intro entry hentry
  obtain ⟨hsource, targets, hvalue, htargets⟩ := graph_contractFields (.inr rfl)
    (fun entry hentry => by
      obtain ⟨hsource, -, hnames⟩ := checkDownstream_eq_ok.mp (h entry hentry)
      exact ⟨hsource, hnames⟩) entry hentry
  refine checkDownstream_eq_ok.mpr ⟨hsource, by rw [hvalue]; rfl, ?_⟩
  rw [hvalue, texts_map_str]
  exact htargets

theorem acyclic_contractFields (h : Acyclic (successors (adjacencyOf data "depends_on"))) :
    Acyclic (successors (adjacencyOf (contractFields removed data) "depends_on")) := by
  intro x hcycle
  refine h x ?_
  have hmono : ∀ {y}, TransGen (EdgeOf (contractFields removed data) "depends_on") x y →
      TransGen (EdgeOf data "depends_on") x y := by
    intro y hpath
    induction hpath with
    | single hstep => exact ((edgeOf_contractFields (.inl rfl)).mp hstep).transGen
    | tail _ hstep ih =>
      exact ih.trans ((edgeOf_contractFields (.inl rfl)).mp hstep).transGen
  exact hmono hcycle

/-! ## Conflicts of the survivors -/

theorem unordered_eq {a b : String} (h : unordered a b = unordered x y) :
    (a = x ∧ b = y) ∨ (a = y ∧ b = x) := by
  unfold unordered at h
  split at h <;> split at h <;> obtain ⟨h1, h2⟩ := Prod.mk.inj h <;> subst h1 h2 <;> simp

theorem touchesRemoved_pair {a b : String} :
    touchesRemoved removed (.arr [.str a, .str b]) = false ↔ a ∉ removed ∧ b ∉ removed := by
  simp [touchesRemoved, isRemoved, Json.arr?, Json.str?]

theorem conflictEdges_contractFields
    (h : ∀ value ∈ elements data "conflict_edges", IsConflictEdge (laneIdsOf data) value) :
    ∀ value ∈ elements (contractFields removed data) "conflict_edges",
      IsConflictEdge (laneIdsOf (contractFields removed data)) value := by
  rw [elements_conflicts]
  intro value hvalue
  obtain ⟨hin, hnot⟩ := mem_filter.mp hvalue
  obtain ⟨a, b, rfl, ha, hb, hab, hina, hinb⟩ := h value hin
  obtain ⟨hra, hrb⟩ := touchesRemoved_pair.mp (by simpa using hnot)
  exact ⟨a, b, rfl, ha, hb, hab, mem_laneIdsOf_contractFields.mpr ⟨hina, hra⟩,
    mem_laneIdsOf_contractFields.mpr ⟨hinb, hrb⟩⟩

theorem get?_colourClasses_contractFields (hx : x ∉ removed) :
    Dict.get? (colourClasses (contractFields removed data)) x =
      Dict.get? (colourClasses data) x := by
  unfold colourClasses coloursOf
  rw [members_colours, Dict.get?_map_entries _ fun (_ : String) (colour : Json) => colour.int?.getD 0,
    Dict.get?_map_entries _ fun (_ : String) (colour : Json) => colour.int?.getD 0,
    Dict.get?_filter_key _ (fun laneId => decide (laneId ∉ removed)) (by simpa using hx)]

theorem bicoloured_contractFields (hx : x ∉ removed) (hy : y ∉ removed)
    (h : Bicoloured (colourClasses data) x y) :
    Bicoloured (colourClasses (contractFields removed data)) x y := by
  unfold Bicoloured at *
  rw [get?_colourClasses_contractFields hx, get?_colourClasses_contractFields hy]
  exact h

theorem mem_conflictPairs_contractFields
    (h : ∀ value ∈ elements data "conflict_edges", IsConflictEdge (laneIdsOf data) value)
    (hx : x ∉ removed) (hy : y ∉ removed) (hpair : unordered x y ∈ conflictPairs data) :
    unordered x y ∈ conflictPairs (contractFields removed data) := by
  obtain ⟨value, hvalue, heq⟩ := mem_map.mp hpair
  obtain ⟨a, b, rfl, -⟩ := h value hvalue
  refine mem_map.mpr ⟨.arr [.str a, .str b], ?_, heq⟩
  rw [elements_conflicts]
  refine mem_filter.mpr ⟨hvalue, ?_⟩
  have hsurvive : a ∉ removed ∧ b ∉ removed := by
    rcases unordered_eq heq with ⟨rfl, rfl⟩ | ⟨rfl, rfl⟩
    · exact ⟨hx, hy⟩
    · exact ⟨hy, hx⟩
  rw [touchesRemoved_pair.mpr hsurvive]
  rfl

theorem conflictPairs_bicoloured_contractFields
    (hedges : ∀ value ∈ elements data "conflict_edges", IsConflictEdge (laneIdsOf data) value)
    (h : ∀ pair ∈ conflictPairs data, Bicoloured (colourClasses data) pair.1 pair.2) :
    ∀ pair ∈ conflictPairs (contractFields removed data),
      Bicoloured (colourClasses (contractFields removed data)) pair.1 pair.2 := by
  intro pair hpair
  obtain ⟨value, hvalue, rfl⟩ := mem_map.mp hpair
  rw [elements_conflicts] at hvalue
  obtain ⟨hin, hnot⟩ := mem_filter.mp hvalue
  obtain ⟨a, b, rfl, -⟩ := hedges value hin
  obtain ⟨hra, hrb⟩ := touchesRemoved_pair.mp (by simpa using hnot)
  have hbefore : Bicoloured (colourClasses data) (unordered a b).1 (unordered a b).2 :=
    h _ (mem_map.mpr ⟨_, hin, rfl⟩)
  show Bicoloured _ (unordered a b).1 (unordered a b).2
  by_cases hab : a ≤ b
  · rw [unordered, if_pos hab] at hbefore ⊢
    exact bicoloured_contractFields hra hrb hbefore
  · rw [unordered, if_neg hab] at hbefore ⊢
    exact bicoloured_contractFields hrb hra hbefore

theorem comparable_contractFields (hx : x ∉ removed) (hy : y ∉ removed) :
    comparable (adjacencyOf (contractFields removed data) "depends_on") x y =
      comparable (adjacencyOf data "depends_on") x y := by
  have hxy := @reaches_contractFields _ data _ _ (.inl rfl) _ hx hy
  have hyx := @reaches_contractFields _ data _ _ (.inl rfl) _ hy hx
  unfold EdgeOf at hxy hyx
  rw [Bool.eq_iff_iff, comparable_iff, comparable_iff, hxy, hyx]

/-! ## Owned paths and state keys of the survivors -/

theorem laneRoots_sublist : (laneRoots (members (contractFields removed data) "lanes")).Sublist
    (laneRoots (members data "lanes")) := by
  rw [members_lanes]
  exact filter_sublist.filterMap _

theorem notMem_of_mem_laneRoots {entry : String × List String}
    (h : entry ∈ laneRoots (members (contractFields removed data) "lanes")) :
    entry.1 ∉ removed := by
  rw [members_lanes] at h
  obtain ⟨⟨laneId, lane⟩, hlane, heq⟩ := mem_filterMap.mp h
  have hnot : laneId ∉ removed := by simpa using (mem_filter.mp hlane).2
  cases lane with
  | obj fields =>
    simp only at heq
    split at heq
    · cases heq
    · rw [← Option.some.inj heq]
      exact hnot
  | _ => cases heq

theorem apart_contractFields
    (hedges : ∀ value ∈ elements data "conflict_edges", IsConflictEdge (laneIdsOf data) value)
    (h : (laneRoots (members data "lanes")).Pairwise
      (Apart (adjacencyOf data "depends_on") (conflictPairs data) (colourClasses data))) :
    (laneRoots (members (contractFields removed data) "lanes")).Pairwise
      (Apart (adjacencyOf (contractFields removed data) "depends_on")
        (conflictPairs (contractFields removed data))
        (colourClasses (contractFields removed data))) := by
  refine (h.sublist laneRoots_sublist).imp_of_mem fun {left right} hleft hright hapart => ?_
  have hl := notMem_of_mem_laneRoots hleft
  have hr := notMem_of_mem_laneRoots hright
  intro leftRoot hleftRoot rightRoot hrightRoot hoverlap
  rcases hapart leftRoot hleftRoot rightRoot hrightRoot hoverlap with hcomparable | ⟨hpair, hbi⟩
  · rw [comparable_contractFields hl hr]
    exact .inl hcomparable
  · exact .inr ⟨mem_conflictPairs_contractFields hedges hl hr hpair,
      bicoloured_contractFields hl hr hbi⟩

theorem stateApart_contractFields
    (h : (members data "lanes").Pairwise (StateApart (adjacencyOf data "depends_on"))) :
    (members (contractFields removed data) "lanes").Pairwise
      (StateApart (adjacencyOf (contractFields removed data) "depends_on")) := by
  rw [members_lanes]
  refine (h.sublist filter_sublist).imp_of_mem fun {left right} hleft hright hstate => ?_
  have hl : left.1 ∉ removed := by simpa using (mem_filter.mp hleft).2
  have hr : right.1 ∉ removed := by simpa using (mem_filter.mp hright).2
  unfold StateApart at *
  rw [comparable_contractFields hl hr]
  exact hstate

theorem Accepted.contractFields (h : Accepted host data) (removed : List String) :
    Accepted host (contractFields removed data) where
  shapes := checkShapes_contractFields h.shapes
  mergeOrder := mergeOrder_contractFields h.mergeOrder
  lanes := by
    rw [members_lanes]
    exact fun entry hentry => h.lanes entry (mem_filter.mp hentry).1
  downstream := downstream_contractFields h.downstream
  dependsOnShape := hasShape_contractFields (isSome_obj?_contractValue _) h.dependsOnShape
  dependsOn := dependsOn_contractFields h.dependsOn
  acyclic := acyclic_contractFields h.acyclic
  conflictShape := hasShape_contractFields (isSome_arr?_contractValue _) h.conflictShape
  colourShape := hasShape_contractFields (isSome_obj?_contractValue _) h.colourShape
  conflictEdges := conflictEdges_contractFields h.conflictEdges
  colours := by
    rw [members_colours]
    intro entry hentry
    obtain ⟨hin, hnot⟩ := mem_filter.mp hentry
    obtain ⟨hlane, hint⟩ := h.colours entry hin
    exact ⟨mem_laneIdsOf_contractFields.mpr ⟨hlane, by simpa using hnot⟩, hint⟩
  bicoloured := conflictPairs_bicoloured_contractFields h.conflictEdges h.bicoloured
  landed := by
    rw [members_lanes]
    exact fun entry hentry => h.landed entry (mem_filter.mp hentry).1
  apart := apart_contractFields h.conflictEdges h.apart
  stateApart := stateApart_contractFields h.stateApart
  headings := by
    rw [members_headings]
    intro entry hentry
    obtain ⟨hin, hnot⟩ := mem_filter.mp hentry
    have hheading := h.headings entry hin
    unfold checkHeading at hheading ⊢
    rw [check_then_eq_ok, require_eq_ok, require_eq_ok] at hheading ⊢
    exact ⟨hheading.1, namesLane_contractFields hheading.2 (by simpa using hnot)⟩
  routes := by
    rw [elements_routes (.inr rfl)]
    intro route hroute hobj
    obtain ⟨hin, hnot⟩ := mem_filter.mp hroute
    exact namesLane_contractFields (h.routes route hin hobj) (by simpa [routesToRemoved] using hnot)
  hints := by
    rw [elements_routes (.inl rfl)]
    intro hint hhint
    obtain ⟨hin, hnot⟩ := mem_filter.mp hhint
    obtain ⟨hobj, hlane, hmatchers⟩ := h.hints hint hin
    exact ⟨hobj, namesLane_contractFields hlane (by simpa [routesToRemoved] using hnot), hmatchers⟩

end

end Workbay.Manifest
