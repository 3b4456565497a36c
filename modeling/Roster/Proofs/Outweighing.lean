import Roster.Proofs.Consistency
import Roster.Proofs.Gauging
import Roster.Proofs.Reordering

/-!
# Roster.Proofs.Outweighing

What the gauge of the host weights tells. The turn of every level writes it anew, so after a delivery it
tells of the last level, however much the hosts of the others weigh.

* `HostStore.heaviest`  — the largest weight of some hosts.
* `maxWeight_reconcile` — a turn finds the largest weight of the hosts that the level should have.
* `Placed`              — the index agrees with the priorities of hosts.
* `mem_resultAt_iff_of_isAlone` — then a level that is left as it is has the hosts that it should have.
* `length_le_of_course` — levels are never taken away, so there is a last one.
* `WeighsLast`          — what the gauge tells after a delivery; `weighsLast_deliver`.
-/

namespace Roster

namespace HostStore

variable {store : HostStore} {ids ids' : List HostId} {n : Nat}

/-- The largest weight of some hosts, but at least one. -/
def heaviest (store : HostStore) (ids : List HostId) : Nat :=
  (ids.map fun id => (store.get id).weight).foldl max 1

theorem heaviest_le_iff :
    store.heaviest ids ≤ n ↔ 1 ≤ n ∧ ∀ i ∈ ids, (store.get i).weight ≤ n := by
  have hfold : ∀ m, (ids.map fun id => (store.get id).weight).foldl max m ≤ n ↔
      m ≤ n ∧ ∀ i ∈ ids, (store.get i).weight ≤ n := by
    induction ids with
    | nil => simp
    | cons i ids ih =>
      intro m
      rw [List.map_cons, List.foldl_cons, ih, Nat.max_le, List.forall_mem_cons, and_assoc]
  exact hfold 1

theorem one_le_heaviest : 1 ≤ store.heaviest ids := (heaviest_le_iff.1 (Nat.le_refl _)).1

theorem weight_le_heaviest {i : HostId} (hi : i ∈ ids) : (store.get i).weight ≤ store.heaviest ids :=
  (heaviest_le_iff.1 (Nat.le_refl _)).2 i hi

theorem heaviest_mono (h : ids ⊆ ids') : store.heaviest ids ≤ store.heaviest ids' :=
  heaviest_le_iff.2 ⟨one_le_heaviest, fun _ hi => weight_le_heaviest (h hi)⟩

theorem heaviest_congr (h : ∀ i, i ∈ ids' ↔ i ∈ ids) : store.heaviest ids' = store.heaviest ids :=
  Nat.le_antisymm (heaviest_mono fun i => (h i).1) (heaviest_mono fun i => (h i).2)

end HostStore

/-! ## The turn of a level -/

namespace Reconcile

section Distinct

variable {rules : Rules} {p : Nat} {all : AddressMap} {texts : List String} {store : HostStore}
  {delivered current : List HostId} {r : Result} (ha : Arrives p all store delivered)
  (hdistinct : (delivered.map store.addressText).Nodup)

include ha hdistinct

theorem visits_of_heir? {id e : HostId} (hid : id ∈ delivered)
    (he : heir? rules all store id = some e) : visits all store delivered e = [id] := by
  have hfind := (heir?_eq_some.1 he).1
  refine List.perm_singleton.1
    ((List.perm_ext_iff_of_nodup (ha.nodup.filter _) (List.nodup_singleton id)).2 fun k => ?_)
  simp only [List.mem_filter, decide_eq_true_eq, List.mem_singleton]
  constructor
  · rintro ⟨hk, hfindk⟩
    have htext := (ha.sound _ e hfindk).2.symm.trans (ha.sound _ e hfind).2
    exact List.inj_on_of_nodup_map hdistinct hk hid htext
  · rintro rfl
    exact ⟨hid, hfind⟩

theorem weight_after_of_heir? {id e : HostId} (hid : id ∈ delivered)
    (he : heir? rules all store id = some e) :
    (after rules all store delivered e).weight = (store.get id).weight := by
  rw [after, visits_of_heir? ha hdistinct hid he, List.foldl_cons, List.foldl_nil, visit,
    if_pos (heir?_eq_some.1 he).2, Host.weight_adopt]

theorem weight_chosen (hr : Reconciled rules all texts store delivered current p r) {id : HostId}
    (hid : id ∈ delivered) :
    (r.store.get (chosen rules all store id)).weight = (store.get id).weight := by
  cases hheir : heir? rules all store id with
  | none =>
    rw [chosen_of_none hheir, hr.arrived id hid, hheir, if_neg (by simp)]
    exact (Host.steady_setFlags _ _).weight
  | some e =>
    have hfind := (heir?_eq_some.1 hheir).1
    have hafter := weight_after_of_heir? ha hdistinct hid hheir
    rw [chosen_of_some hheir, hr.installed e (ha.sound _ e hfind).1 (ha.apart _ e hfind)]
    split
    · exact hafter
    · exact hafter

/-- The turn of a level finds the largest weight of the hosts that the level should have. -/
theorem maxWeight_reconcile (hc : ∀ i ∈ current, i < store.size ∧ i ∉ delivered) :
    let r := reconcile rules store delivered current all texts
    r.maxWeight = r.store.heaviest r.hosts := by
  intro r
  have hr : Reconciled rules all texts store delivered current p r := reconciled_reconcile ha hc
  have hmax : r.maxWeight =
      (((left rules all store delivered current).filter (stays rules all texts store delivered)).map
        fun i => ((matchAll rules all store delivered).store.get i).weight).foldl max
        ((delivered.map fun id => (store.get id).weight).foldl max 1) := by
    simp only [r, reconcile_eq, drain_eq, maxWeight_matchAll ha]
  have hmembers : (delivered.map (chosen rules all store)).map (fun i => (r.store.get i).weight) =
      delivered.map fun id => (store.get id).weight := by
    rw [List.map_map]
    exact List.map_congr_left fun id hid => weight_chosen ha hdistinct hr hid
  rw [hmax, HostStore.heaviest, hr.hosts, List.map_append, List.foldl_append, hmembers]
  refine congrArg (List.foldl max _) (List.map_congr_left fun i hi => ?_)
  obtain ⟨hlt, hnot⟩ := hc i (left_sublist.subset (List.mem_filter.1 hi).1)
  rw [(gathered_matchAll ha).installed i hlt hnot, hr.installed i hlt hnot]
  split
  · rfl
  · rfl

end Distinct

end Reconcile

/-! ## The gauge after a delivery -/

namespace Cluster

variable {τ : Type} [Quantity τ] (c : Cluster τ)

theorem maxHostWeight_reload : c.reload.maxHostWeight = c.maxHostWeight := by
  unfold reload
  split <;> rfl

theorem maxHostWeight_finishInit : c.finishInit.maxHostWeight = c.maxHostWeight := by
  simp only [finishInit]
  split <;> split <;> simp only [announce, maxHostWeight_reload]

omit [Quantity τ] in
theorem maxHostWeight_beginChecks : c.beginChecks.maxHostWeight = c.maxHostWeight := by
  unfold beginChecks
  split
  · rfl
  · split <;> rfl

theorem maxHostWeight_preInitDone : c.preInitDone.maxHostWeight = c.maxHostWeight := by
  simp only [preInitDone]
  split
  · rfl
  · split
    · rw [maxHostWeight_finishInit, maxHostWeight_beginChecks]
    · rw [maxHostWeight_beginChecks]

/-- A host that the index finds is in the level whose priority it has. -/
def Placed {τ : Type} (c : Cluster τ) : Prop :=
  ∀ b e, Assoc.find? b c.priorities.addressMap = some e →
    e ∈ c.priorities.hostsAt (c.hosts.get e).priority

omit [Quantity τ] in
variable {c} in
theorem Orderly.placed (hc : c.Orderly) : c.Placed := by
  intro b e he
  obtain ⟨p, rest, hl, _⟩ := hc.located_of_find? he
  have hin : e ∈ c.priorities.hostsAt p := (HostStore.mem_located.1 (hl ▸ List.mem_cons_self)).1
  rw [hc.priority p e hin]
  exact hin

end Cluster

namespace DynamicCluster

variable {τ : Type} [Quantity τ] {dc t : DynamicCluster τ} {a : Assignment} {new : List Event}
  (hs : dc.cluster.Sound) (hf : dc.cluster.config.factorFor a ≠ 0) (ha : a.Clean)

include hs hf ha

/-- The turn of a level writes the gauge, whatever it was before. -/
theorem maxHostWeight_reached_succ (p : Nat) :
    (dc.reached a (p + 1)).maxHostWeight =
      (dc.reached a (p + 1)).hosts.heaviest (dc.resultAt a p).hosts := by
  have hwritten : (dc.reached a (p + 1)).maxHostWeight = (dc.resultAt a p).maxWeight := by
    rw [reached_succ hs hf]
    split <;> rfl
  have htexts : ((dc.plan a).1.draft.hostsAt p).map (dc.reached a p).hosts.addressText =
      (dc.arrivalsAt a p).map Arrival.text := by
    rw [hostsAt_draft, List.map_map]
    exact List.map_congr_left fun x hx => addressText_reached_id hs hf (mem_arrivalsAt.1 hx).1 p
  rw [hwritten, (levelStep_reached hs hf p).hosts]
  exact Reconcile.maxWeight_reconcile (arrives_reached hs hf p)
    (htexts ▸ nodup_texts_arrivalsAt dc ha p) ((underway_reached hs hf p).known hs)

/-! ## A level that is left as it is -/

theorem exists_heir?_of_isAlone (hplaced : dc.cluster.Placed) {p : Nat}
    (halone : dc.isAlone a p = true) {x : Arrival} (hx : x ∈ dc.arrivalsAt a p) :
    ∃ e, dc.heir? x = some e ∧ e ∈ dc.cluster.priorities.hostsAt p := by
  obtain ⟨e, he, hpriority⟩ := heir?_of_unchanged hs hf (changed_of_isAlone halone) hx
  have hfind := (Option.filter_eq_some_iff.1 he).1
  obtain ⟨htext, hlt⟩ := text_of_heir? hs he
  refine ⟨e, he, ?_⟩
  rcases priority_reached (a := a) hs hf hlt p with ⟨⟨y, hy, hlevel, hye⟩, _⟩ | ⟨_, hsame⟩
  · -- the endpoint is the only one at its address, and it is of this level
    have hyx := eq_of_text_eq ha hy (mem_arrivalsAt.1 hx).1
      ((text_of_heir? hs hye).1.symm.trans htext)
    rw [hyx, (mem_arrivalsAt.1 hx).2] at hlevel
    exact absurd hlevel (Nat.lt_irrefl p)
  · rw [← hpriority, hsame]
    exact hplaced _ e hfind

theorem mem_resultAt_iff_of_isAlone (hplaced : dc.cluster.Placed) {p : Nat}
    (halone : dc.isAlone a p = true) {i : HostId} :
    i ∈ (dc.resultAt a p).hosts ↔ i ∈ dc.cluster.priorities.hostsAt p := by
  rw [hosts_resultAt hs hf, List.mem_append, List.mem_map, List.mem_filter]
  constructor
  · rintro (⟨x, hx, rfl⟩ | ⟨hi, _⟩)
    · obtain ⟨e, he, hin⟩ := exists_heir?_of_isAlone hs hf ha hplaced halone hx
      rw [member_of_heir? he]
      exact hin
    · exact (left_sublist p).subset hi
  · intro hi
    by_cases hr : dc.Renewed a p (dc.cluster.hosts.addressText i)
    · obtain ⟨x, hx, htext, _⟩ := hr
      obtain ⟨e, he, hin⟩ := exists_heir?_of_isAlone hs hf ha hplaced halone hx
      refine .inl ⟨x, hx, ?_⟩
      rw [member_of_heir? he]
      obtain ⟨k, hl⟩ := exists_located_of_heir? hf ha halone hs hx he
      have honly : ∀ j ∈ dc.cluster.priorities.hostsAt p,
          dc.cluster.hosts.addressText j = x.text → j = k := fun j hj hjx =>
        List.mem_singleton.1 (hl ▸ HostStore.mem_located.2 ⟨hj, hjx⟩)
      rw [honly e hin (text_of_heir? hs he).1, honly i hi htext.symm]
    · have hleft := mem_left_of_not_renewed hs hf hi hr
      exact .inr ⟨hleft, stays_of_unchanged hs hf (changed_of_isAlone halone) hleft⟩

namespace Delivered

variable (ht : dc.Delivered a new t)

include ht

omit ha in
theorem length_levels : t.cluster.priorities.levels.length = dc.span (dc.plan a).1 := by
  have hdone := ht.concluded hs hf
  rw [hdone.quiet.length, PrioritySet.length_congr hdone.finish.installation,
    length_reached_span hs hf]

/-- The gauge tells the largest weight of the hosts that the last level should have. -/
theorem maxHostWeight {last : Nat} (hlast : t.cluster.priorities.levels.length = last + 1) :
    t.cluster.maxHostWeight = t.cluster.hosts.heaviest (dc.resultAt a last).hosts := by
  have hspan : dc.span (dc.plan a).1 = last + 1 := (ht.length_levels hs hf).symm.trans hlast
  have hgauge : t.cluster.maxHostWeight = (dc.reached a (last + 1)).maxHostWeight := by
    rw [ht.complete, hspan]
    exact Cluster.maxHostWeight_preInitDone _
  rw [hgauge, ht.hosts, hspan]
  exact maxHostWeight_reached_succ hs hf ha last

/-- These are its hosts if it was installed again, or if the index agreed with the priorities of hosts. -/
theorem mem_hostsAt_iff {p : Nat} (h : dc.isAlone a p = false ∨ dc.cluster.Placed) {i : HostId} :
    i ∈ t.cluster.priorities.hostsAt p ↔ i ∈ (dc.resultAt a p).hosts := by
  rw [ht.hostsAt p]
  split
  · case isTrue halone =>
    rw [halone] at h
    exact (mem_resultAt_iff_of_isAlone hs hf ha (h.resolve_left (by simp)) halone).symm
  · rfl

end Delivered

end DynamicCluster

/-! ## Levels are never taken away -/

namespace PrioritySet

variable {τ : Type} [Quantity τ] {ps qs : PrioritySet τ}

theorem length_le_of_pass (hpass : Pass ps qs) : ps.levels.length ≤ qs.levels.length := by
  cases hpass with
  | reindex store u => exact Nat.le_refl _
  | readMap => exact Nat.le_of_eq (length_congr (hears_readMap ps).installation).symm
  | ensureLevel p =>
    rw [length_ensureLevel]
    exact Nat.le_max_left _ _
  | stray hu => exact Nat.le_of_eq (congrArg (fun rs => rs.levels.length) (putLevel_stray hu)).symm
  | notifyMembers added removed =>
    exact Nat.le_of_eq (length_congr (hears_notifyMembers added removed ps).installation).symm
  | announce => exact Nat.le_refl _
  | choose hl hmany => exact Nat.le_of_eq (List.length_map _).symm
  | watchMembers drops => exact Nat.le_refl _
  | watchPriorities drops => exact Nat.le_refl _
  | watchLevel p drops => exact Nat.le_of_eq (length_congr (installation_watchLevel ps p drops)).symm
  | dropWatch number => exact Nat.le_of_eq (length_congr (installation_dropWatch ps number)).symm

theorem length_putLevel (h : ps.Regular) {u : Update} (hu : u.priority < ps.levels.length) :
    (ps.putLevel u).levels.length = ps.levels.length := by
  have hlt : u.priority < (ps.install u).levels.length := by
    rw [length_install]
    exact hu
  obtain ⟨_, hnew, _⟩ := hears_notifyLevel u.priority u.added u.removed (h.install u).forwards hlt
  exact (length_congr hnew.installation).trans (length_install ps u)

theorem length_le_of_course {ms : List (Moment τ)} (h : ps.Regular) (hcourse : ps.Course ms qs) :
    qs.Regular ∧ ps.levels.length ≤ qs.levels.length := by
  induction hcourse with
  | refl => exact ⟨h, Nat.le_refl _⟩
  | pass _ hpass ih => exact ⟨(aside_pass ih.1 hpass).regular, Nat.le_trans ih.2 (length_le_of_pass hpass)⟩
  | @install _ rs u _ hu _ ih =>
    exact ⟨ih.1.putLevel u, (length_putLevel ih.1 hu).symm ▸ ih.2⟩

end PrioritySet

namespace Service

variable {τ : Type} [Quantity τ] {s t : Service τ} {config : ClusterConfig} {a : Assignment}

theorem exists_course_of_reaches {allowed : Service τ → Action → Prop} (h : Reaches allowed s t) :
    ∃ ms, s.cluster.priorities.Course ms t.cluster.priorities := by
  induction h with
  | refl => exact ⟨[], .refl⟩
  | cons _ hstep _ ih => exact ⟨_, (course_perform hstep).trans ih.choose_spec⟩

theorem levels_of_reaches {allowed : Service τ → Action → Prop}
    (h : Reaches allowed (fresh τ config) s) : 0 < s.cluster.priorities.levels.length := by
  obtain ⟨_, hcourse⟩ := exists_course_of_reaches h
  have hbare := bare_fresh (τ := τ) config
  have hle := (PrioritySet.length_le_of_course hbare.regular hcourse).2
  rw [hbare.single] at hle
  exact hle

/-! ## What the gauge tells -/

omit [Quantity τ] in
/-- The largest weight of all installed hosts, but at least one. -/
def heaviest (s : Service τ) : Nat :=
  s.cluster.hosts.heaviest (s.cluster.priorities.installed.map Prod.snd)

/-- What the gauge tells after `a` was delivered to `s`. -/
structure WeighsLast (s t : Service τ) (a : Assignment) (last : Nat) : Prop where
  levels : t.cluster.priorities.levels.length = last + 1
  /-- It tells of the members of the last level and of the hosts that stay there to drain. -/
  due : t.cluster.maxHostWeight = t.cluster.hosts.heaviest
    ((s.body.arrivalsAt a last).map s.body.member ++
      (s.body.left a last).filter (s.body.stays a last))
  /-- These are the hosts of the level, if it was installed again, or if the index agreed with the
  priorities of hosts; -/
  installed : s.body.isAlone a last = false ∨ s.cluster.Placed →
    t.cluster.maxHostWeight = t.cluster.hosts.heaviest (t.cluster.priorities.hostsAt last)
  /-- and then it tells of all hosts exactly if none of another level outweighs them. -/
  all : s.body.isAlone a last = false ∨ s.cluster.Placed →
    (t.cluster.maxHostWeight = t.heaviest ↔ ∀ p, p < last →
      ∀ i ∈ t.cluster.priorities.hostsAt p,
        (t.cluster.hosts.get i).weight ≤ t.cluster.maxHostWeight)

omit [Quantity τ] in
/-- The heaviest host of a level is the heaviest of all exactly if none of another level outweighs it. -/
theorem heaviest_hostsAt_eq_iff (hs : s.cluster.priorities.Regular) {last : Nat}
    (hlast : s.cluster.priorities.levels.length = last + 1) :
    s.cluster.hosts.heaviest (s.cluster.priorities.hostsAt last) = s.heaviest ↔
      ∀ p, p < last → ∀ i ∈ s.cluster.priorities.hostsAt p, (s.cluster.hosts.get i).weight ≤
        s.cluster.hosts.heaviest (s.cluster.priorities.hostsAt last) := by
  have hmem : ∀ p i, i ∈ s.cluster.priorities.hostsAt p →
      i ∈ s.cluster.priorities.installed.map Prod.snd := fun p i hi =>
    List.mem_map.2 ⟨(p, i), (PrioritySet.mem_installed hs).2 hi, rfl⟩
  constructor
  · intro h p _ i hi
    rw [h]
    exact HostStore.weight_le_heaviest (hmem p i hi)
  · intro h
    refine Nat.le_antisymm (HostStore.heaviest_mono (hmem last))
      (HostStore.heaviest_le_iff.2 ⟨HostStore.one_le_heaviest, fun i hi => ?_⟩)
    obtain ⟨⟨p, j⟩, hj, rfl⟩ := List.mem_map.1 hi
    have hj := (PrioritySet.mem_installed hs).1 hj
    have hp : p < last + 1 := by
      by_contra hle
      rw [PrioritySet.hostsAt_of_length_le (by omega)] at hj
      cases hj
    obtain hlt | rfl : p < last ∨ p = last := by omega
    · exact h p hlt j hj
    · exact HostStore.weight_le_heaviest hj

theorem placed_of_reaches (hconfig : config.validate = .ok ())
    (h : Reaches (fun _ act => act.IsClean) (fresh τ config) s) : s.cluster.Placed :=
  (orderly_of_reaches hconfig h).placed

/-- After an assignment that names every address once the gauge tells the largest weight of the last
level. That is the largest of all exactly if no host of another level outweighs it. -/
theorem weighsLast_deliver (hconfig : config.validate = .ok ())
    (hs : Reaches Knows (fresh τ config) s) (ha : config.validateAssignment a = .ok ())
    (hclean : a.Clean) :
    (∃ t last, s.deliver a = .done t ∧ s.WeighsLast t a last) ∧
      (Reaches (fun _ act => act.IsClean) (fresh τ config) s → s.cluster.Placed) := by
  have hsound := sound_of_reaches hconfig hs
  have hf := hsound.factorFor_ne_zero hconfig ha
  refine ⟨?_, placed_of_reaches hconfig⟩
  obtain ⟨_, body, hdone, hnew, _⟩ := exists_deliver hconfig hsound ha
  have hspan : 0 < s.body.span (s.body.plan a).1 :=
    Nat.lt_of_lt_of_le (levels_of_reaches hs) (Nat.le_max_right _ _)
  obtain ⟨last, hlast⟩ := Nat.exists_eq_add_one.2 hspan
  have hlevels : body.cluster.priorities.levels.length = last + 1 :=
    (hnew.length_levels hsound.cluster hf).trans hlast
  have hgauge := hnew.maxHostWeight hsound.cluster hf hclean hlevels
  have hhosts : s.body.isAlone a last = false ∨ s.cluster.Placed → body.cluster.maxHostWeight =
      body.cluster.hosts.heaviest (body.cluster.priorities.hostsAt last) := fun h =>
    hgauge.trans (HostStore.heaviest_congr fun _ =>
      (hnew.mem_hostsAt_iff hsound.cluster hf hclean h).symm)
  refine ⟨_, last, hdone, hlevels, ?_, hhosts, fun h => ?_⟩
  · rw [← DynamicCluster.hosts_resultAt hsound.cluster hf]
    exact hgauge
  · have hiff := heaviest_hostsAt_eq_iff (s := { s with body }) hnew.regular hlevels
    have hhosts : ({ s with body } : Service τ).cluster.maxHostWeight = _ := hhosts h
    rw [hhosts]
    exact hiff

/-- The gauge shows the weight of the host that changed to the last level. -/
theorem weighsLast_settled :
    settled.deliver crossed = .done resettled ∧ resettled.cluster.maxHostWeight = 1 ∧
      (∃ last, settled.WeighsLast resettled crossed last) ∧ settled.cluster.Placed := by
  obtain ⟨⟨t, last, ht, hweighs⟩, hplaced⟩ :=
    weighsLast_deliver rfl (reaches_knows reaches_settled_of_clean) rfl clean_crossed
  cases ht
  exact ⟨rfl, rfl, ⟨last, hweighs⟩, hplaced reaches_settled_of_clean⟩

/-- An endpoint of weight 7, and one of weight 3 in the next level. -/
def descending : Assignment :=
  { groups :=
      [{ endpoints := [{ address := ⟨.ipv4 ⟨10, 0, 0, 1⟩, 80⟩, weight? := some 7 }] },
       { priority := 1, endpoints := [{ address := ⟨.ipv4 ⟨10, 0, 0, 2⟩, 80⟩, weight? := some 3 }] }] }

theorem clean_descending : descending.Clean :=
  ⟨by decide, by simp [descending, Assignment.members, AddressKind.Proper]⟩

/-- The host of the first level outweighs the one that the gauge tells of. -/
theorem outweighed_descending :
    ({} : ClusterConfig).validate = .ok () ∧
      ({} : ClusterConfig).validateAssignment descending = .ok () ∧ descending.Clean ∧
      ∃ t, (fresh Rat {}).deliver descending = .done t ∧
        t.cluster.priorities.installed = [(0, 0), (1, 1)] ∧ t.heaviest = 7 ∧
        t.cluster.maxHostWeight = 3 :=
  ⟨rfl, rfl, clean_descending, _, rfl, rfl, rfl, rfl⟩

end Service

end Roster
