import Roster.Cluster.Dynamic
import Roster.Proofs.Arranging
import Roster.Proofs.Drafting
import Roster.Proofs.Mapping
import Roster.Proofs.Reconciling

/-!
# Roster.Proofs.Delivering

One delivery, level by level.

* `Rollout.result`   — what level `p` is reconciled to when its turn comes.
* `Rollout.isAlone`  — whether it is left as it is.
* `LevelStep`        — all that a level's turn does; `levelStep_rolloutLevel`.
* `reached`          — a delivery up to level `p`; `each_reached` says that no turn is refused.
* `Sound`            — what a cluster must be like for that.
-/

namespace Roster

namespace Attempt

variable {ε σ α : Type} {step : α → σ → Attempt ε σ}

theorem each_append (as bs : List α) (s : σ) :
    each step (as ++ bs) s = (each step as s).andThen (each step bs) := by
  induction as generalizing s with
  | nil => rfl
  | cons a as ih =>
    simp only [List.cons_append, each]
    cases step a s with
    | done t => exact ih t
    | failed e t => rfl

theorem each_singleton (a : α) (s : σ) : each step [a] s = step a s := by
  unfold each
  cases step a s <;> rfl

end Attempt

namespace Batch

theorem mem_extend {seen ids : List HostId} {i : HostId} :
    i ∈ extend seen ids ↔ i ∈ seen ∨ i ∈ ids := by
  induction ids generalizing seen with
  | nil => simp [extend]
  | cons id ids ih =>
    rw [extend, ih]
    by_cases hid : id ∈ seen
    · rw [if_pos hid, List.mem_cons]
      exact ⟨fun h => h.imp_right .inr, fun h => h.elim .inl fun h => h.elim (fun he => .inl (he ▸ hid)) .inr⟩
    · rw [if_neg hid, List.mem_append, List.mem_singleton, List.mem_cons, or_assoc]

theorem nodup_extend {seen ids : List HostId} (h : seen.Nodup) : (extend seen ids).Nodup := by
  induction ids generalizing seen with
  | nil => exact h
  | cons id ids ih =>
    refine ih ?_
    split
    · exact h
    · rename_i hid
      exact List.nodup_append.2 ⟨h, List.nodup_singleton id, fun i hi j hj hij =>
        hid (List.mem_singleton.1 hj ▸ hij ▸ hi)⟩

end Batch

namespace Rollout

variable {τ : Type}

/-- What level `p` is reconciled to. -/
def result (d : Delivery) (p : Nat) (r : Rollout τ) : Reconcile.Result :=
  Reconcile.reconcile d.rules r.hosts (d.draft.hostsAt p) (r.hostsAt p) d.installed d.addresses

/-- Whether level `p` is left as it is. -/
def isAlone (d : Delivery) (p : Nat) (r : Rollout τ) : Bool :=
  !(r.result d p).changed && (r.factorAt? p).getD d.factor = d.factor &&
    r.weights[p]?.getD [] = d.draft.weightsAt p

variable [Quantity τ]

def made (d : Delivery) (p : Nat) (r : Rollout τ) : PrioritySet τ :=
  r.batch.priorities.ensureLevel p (some d.factor)

theorem hostsAt_made (d : Delivery) (p : Nat) (r : Rollout τ) (q : Nat) :
    (r.made d p).hostsAt q = r.hostsAt q :=
  PrioritySet.hostsAt_ensureLevel _ _ _ _

/-- The update that installs what level `p` is reconciled to. -/
def update (d : Delivery) (p : Nat) (r : Rollout τ) : Update :=
  Draft.composed d.config (d.draft.weightsAt p) (r.result d p).store
    { priority := p
      hosts := (r.result d p).hosts
      added? := some (r.result d p).added
      removed? := some (r.result d p).removed
      factor? := some d.factor }

/-- What the turn of level `p` does. -/
structure LevelStep (d : Delivery) (p : Nat) (r r' : Rollout τ) : Prop where
  hosts : r'.hosts = (r.result d p).store
  length : r'.batch.priorities.levels.length = max r.batch.priorities.levels.length (p + 1)
  regular : r'.batch.priorities.Regular
  touched : ∀ q ∈ r'.batch.touched, q = p ∨ q ∈ r.batch.touched
  fewer : PrioritySet.Fewer r.batch.priorities r'.batch.priorities
  hostsAt : ∀ q, r'.hostsAt q =
    if q = p ∧ r.isAlone d p = false then (r.result d p).hosts else r.hostsAt q
  alone : r.isAlone d p = true → r'.batch = { r.batch with priorities := r.made d p }
  installed : r.isAlone d p = false → ∃ stamp, r'.batch.priorities.generation? p =
    some (.build stamp (r.update d p).partition (r.update d p).weights? d.factor)
  others : ∀ q, q ≠ p → r'.batch.priorities.generation? q = (r.made d p).generation? q
  weights : ∀ q, r'.weights[q]?.getD [] = if q = p then d.draft.weightsAt p else r.weights[q]?.getD []
  rebuilt : r'.rebuilt = (r.rebuilt || !r.isAlone d p)
  added : ∀ i, i ∈ r'.batch.added ↔
    i ∈ r.batch.added ∨ (r.isAlone d p = false ∧ i ∈ (r.result d p).added)
  removed : ∀ i, i ∈ r'.batch.removed ↔
    i ∈ r.batch.removed ∨ (r.isAlone d p = false ∧ i ∈ (r.result d p).removed)
  nodup : r.batch.added.Nodup ∧ r.batch.removed.Nodup →
    r'.batch.added.Nodup ∧ r'.batch.removed.Nodup
  map : r'.batch.priorities.addressMap =
    if r.isAlone d p = true then r.batch.priorities.addressMap
    else AddressIndex.revised (r.result d p).store p (r.result d p).added (r.result d p).removed
      ((r.made d p).survivor? (r.result d p).store p (r.result d p).hosts)
      r.batch.priorities.addressMap
  told : ∃ new, r'.batch.priorities.journal.events = r.batch.priorities.journal.events ++ new ∧
    if r.isAlone d p = true then new = []
    else (∀ e ∈ new, PrioritySet.IsReport p (r.result d p).added (r.result d p).removed e) ∧
      ∀ w, r'.batch.priorities.Watches p w →
        PrioritySet.WasTold p (r.result d p).added (r.result d p).removed w new

def withLevel (d : Delivery) (p : Nat) (r : Rollout τ) : Rollout τ :=
  { r with batch := { r.batch with priorities := r.made d p } }

theorem ensureLevel_done {d : Delivery} (hd : d.factor ≠ 0) (p : Nat) (r : Rollout τ) :
    r.ensureLevel p d.factor = .done (r.withLevel d p) := by
  simp only [ensureLevel, PrioritySet.getOrCreate]
  split
  · rename_i hp
    simp only [Attempt.map, withLevel, made, PrioritySet.ensureLevel_of_lt hp]
  · rw [if_neg (by simpa using hd)]
    rfl

theorem result_withLevel (d : Delivery) (p : Nat) (r : Rollout τ) :
    (r.withLevel d p).result d p = r.result d p := by
  have hhosts : (r.withLevel d p).hostsAt p = r.hostsAt p :=
    PrioritySet.hostsAt_ensureLevel r.batch.priorities p (some d.factor) p
  simp only [result, hhosts]
  rfl

theorem factorAt?_withLevel (d : Delivery) (p : Nat) (r : Rollout τ) :
    (r.withLevel d p).factorAt? p = some ((r.factorAt? p).getD d.factor) := by
  have hfactor : (r.withLevel d p).factorAt? p = ((r.made d p).level? p).map Level.factor := rfl
  rw [hfactor, made]
  rcases Nat.lt_or_ge p r.batch.priorities.levels.length with hp | hp
  · have hl : r.batch.priorities.level? p = some r.batch.priorities.levels[p] :=
      List.getElem?_eq_getElem hp
    rw [PrioritySet.level?_ensureLevel_of_lt hp, factorAt?, hl]
    rfl
  · have hnone : r.batch.priorities.level? p = none := List.getElem?_eq_none hp
    have hlt : p < (r.batch.priorities.ensureLevel p (some d.factor)).levels.length := by
      rw [PrioritySet.length_ensureLevel]
      omega
    obtain ⟨l, hl⟩ : ∃ l, (r.batch.priorities.ensureLevel p (some d.factor)).level? p = some l :=
      ⟨_, List.getElem?_eq_getElem hlt⟩
    rw [hl, PrioritySet.level?_ensureLevel_of_le hp hl, factorAt?, hnone, if_pos rfl]
    rfl

theorem getElem?_extendWeights (weights : List LocalityWeights) (p : Nat) :
    (extendWeights weights p)[p]? = some (weights[p]?.getD []) := by
  simp only [extendWeights, List.getElem?_append, List.getElem?_replicate]
  by_cases hp : p < weights.length
  · rw [if_pos hp, List.getElem?_eq_getElem hp]
    rfl
  · rw [if_neg hp, if_pos (by omega), List.getElem?_eq_none (by omega)]
    rfl

/-- A rollout after the hosts of level `p` are reconciled, before anything is installed. -/
def reconciled (d : Delivery) (p : Nat) (r : Rollout τ) : Rollout τ :=
  { r.withLevel d p with
    hosts := (r.result d p).store
    maxHostWeight := (r.result d p).maxWeight
    weights := extendWeights r.weights p }

theorem isSettled_reconciled (d : Delivery) (p : Nat) (r : Rollout τ) :
    (r.reconciled d p).isSettled d p (r.result d p).changed = r.isAlone d p := by
  have hfactor : (r.reconciled d p).factorAt? p = some ((r.factorAt? p).getD d.factor) :=
    factorAt?_withLevel d p r
  have hweights : (r.reconciled d p).weights[p]? = some (r.weights[p]?.getD []) :=
    getElem?_extendWeights r.weights p
  simp only [isSettled, isAlone, hfactor, hweights, Option.some.injEq]

/-- A rollout after level `p` is installed again. -/
def refreshed (d : Delivery) (p : Nat) (r : Rollout τ) : Rollout τ :=
  { r.reconciled d p with
    weights := (extendWeights r.weights p).set p (d.draft.weightsAt p)
    batch :=
      { priorities := (r.made d p).put (r.result d p).store (r.update d p)
        added := Batch.extend r.batch.added (r.result d p).added
        removed := Batch.extend r.batch.removed (r.result d p).removed
        touched := p :: r.batch.touched }
    rebuilt := true }

/-- The turn of a level, once the level is there. -/
theorem reconcileLevel_withLevel (d : Delivery) (p : Nat) (r : Rollout τ) :
    reconcileLevel d p (r.withLevel d p) =
      if r.isAlone d p then .done (r.reconciled d p)
      else (Batch.update { r.batch with priorities := r.made d p } (r.result d p).store
        (r.update d p)).map fun b => { r.refreshed d p with batch := b } := by
  have hresult := result_withLevel d p r
  simp only [result] at hresult
  simp only [reconcileLevel, hresult, ← isSettled_reconciled, install, Draft.compose_eq,
    Draft.flagChecked]
  rfl

/-- No turn is refused, as long as no level has two. -/
theorem rolloutLevel_eq {d : Delivery} (hd : d.factor ≠ 0) {p : Nat} {r : Rollout τ}
    (hp : p ∉ r.batch.touched) :
    DynamicCluster.rolloutLevel d p r =
      .done (if r.isAlone d p then r.reconciled d p else r.refreshed d p) := by
  have hpriority : (r.update d p).priority ∉ r.batch.touched := hp
  have hfactor : ¬ (r.update d p).factor? = some 0 := fun h => hd (Option.some.inj h)
  rw [DynamicCluster.rolloutLevel, ensureLevel_done hd, Attempt.andThen_done,
    reconcileLevel_withLevel]
  simp only [Batch.update, if_neg hpriority, PrioritySet.putChecked, if_neg hfactor, Attempt.map]
  split <;> rfl

theorem getD_extendWeights (weights : List LocalityWeights) (p q : Nat) :
    (extendWeights weights p)[q]?.getD [] = weights[q]?.getD [] := by
  simp only [extendWeights, List.getElem?_append, List.getElem?_replicate]
  split
  · rfl
  · rw [List.getElem?_eq_none (by omega)]
    split <;> rfl

theorem levelStep_of_isAlone {d : Delivery} {p : Nat} {r : Rollout τ}
    (hr : r.batch.priorities.Regular) (halone : r.isAlone d p = true) :
    LevelStep d p r (r.reconciled d p) where
  hosts := rfl
  length := PrioritySet.length_ensureLevel _ _ _
  regular := hr.ensureLevel p (some d.factor)
  touched _ hq := .inr hq
  fewer := PrioritySet.fewer_ensureLevel _ _ _
  hostsAt q := by
    rw [if_neg (by simp [halone])]
    exact hostsAt_made d p r q
  alone _ := rfl
  installed h := by rw [halone] at h; cases h
  others _ _ := rfl
  weights q := by
    -- the weights that were delivered are those it has
    have hweights : r.weights[p]?.getD [] = d.draft.weightsAt p := by
      simp only [isAlone, Bool.and_eq_true, decide_eq_true_eq] at halone
      exact halone.2
    refine (getD_extendWeights r.weights p q).trans ?_
    split
    · rename_i hq
      rw [hq, hweights]
    · rfl
  rebuilt := by simp [reconciled, withLevel, halone]
  added i := by simp [reconciled, withLevel, halone]
  removed i := by simp [reconciled, withLevel, halone]
  nodup h := h
  map := by
    rw [if_pos halone]
    exact PrioritySet.addressMap_ensureLevel _ _ _
  told := by
    refine ⟨[], ?_, ?_⟩
    · rw [List.append_nil]
      exact congrArg Journal.events (PrioritySet.journal_ensureLevel _ _ _)
    · rw [if_pos halone]

theorem levelStep_of_put {d : Delivery} {p : Nat} {r : Rollout τ}
    (hr : r.batch.priorities.Regular) (halone : r.isAlone d p = false) :
    LevelStep d p r (r.refreshed d p) := by
  have hmade : (r.made d p).Regular := hr.ensureLevel p (some d.factor)
  have hlength : (r.made d p).levels.length = max r.batch.priorities.levels.length (p + 1) :=
    PrioritySet.length_ensureLevel _ _ _
  have hfewer : PrioritySet.Fewer r.batch.priorities (r.made d p) :=
    PrioritySet.fewer_ensureLevel _ _ _
  have hmap : (r.made d p).addressMap = r.batch.priorities.addressMap :=
    PrioritySet.addressMap_ensureLevel _ _ _
  have hjournal : (r.made d p).journal = r.batch.priorities.journal :=
    PrioritySet.journal_ensureLevel _ _ _
  have hnone : ¬ r.isAlone d p = true := by simp [halone]
  obtain ⟨new, hputs⟩ := PrioritySet.puts_put hmade (r.result d p).store (r.update d p)
  exact
    { hosts := rfl
      length := by
        refine hputs.length.trans ?_
        rw [hlength]
        exact Nat.max_eq_left (Nat.le_max_right _ _)
      regular := hputs.regular
      touched := fun q hq => List.mem_cons.1 hq
      fewer := hfewer.trans hputs.fewer
      hostsAt := fun q => by
        have hat := hputs.hostsAt q
        rw [hostsAt_made] at hat
        simp only [halone, and_true]
        exact hat
      alone := fun h => absurd h hnone
      installed := fun _ => hputs.here
      others := fun q hq => by
        refine (hputs.others q hq).trans ?_
        have hlt : (r.update d p).priority < (r.made d p).levels.length := by
          rw [hlength]
          exact Nat.lt_of_lt_of_le (Nat.lt_succ_self p) (Nat.le_max_right _ _)
        rw [PrioritySet.ensureLevel_of_lt hlt]
      weights := fun q => by
        have hlt : p < (extendWeights r.weights p).length := by
          simp only [extendWeights, List.length_append, List.length_replicate]
          omega
        simp only [refreshed, List.getElem?_set, hlt, if_true]
        by_cases hq : q = p
        · simp [hq]
        · rw [if_neg (Ne.symm hq), if_neg hq, getD_extendWeights]
      rebuilt := by simp [refreshed, halone]
      added := fun i => by simp [refreshed, halone, Batch.mem_extend]
      removed := fun i => by simp [refreshed, halone, Batch.mem_extend]
      nodup := fun h => ⟨Batch.nodup_extend h.1, Batch.nodup_extend h.2⟩
      map := by
        rw [if_neg hnone, ← hmap]
        exact hputs.map
      told := by
        refine ⟨new, ?_, ?_⟩
        · rw [← hjournal]
          exact hputs.events
        · rw [if_neg hnone]
          exact ⟨hputs.reports, hputs.told⟩ }

theorem levelStep_rolloutLevel {d : Delivery} (hd : d.factor ≠ 0) {p : Nat} {r : Rollout τ}
    (hr : r.batch.priorities.Regular) (hp : p ∉ r.batch.touched) :
    ∃ r', DynamicCluster.rolloutLevel d p r = .done r' ∧ LevelStep d p r r' := by
  refine ⟨_, rolloutLevel_eq hd hp, ?_⟩
  cases halone : r.isAlone d p with
  | true => exact levelStep_of_isAlone hr halone
  | false => exact levelStep_of_put hr halone

end Rollout

def Assignment.texts (a : Assignment) : List String :=
  a.members.map fun m => m.2.address.text

/-- What holds of a cluster between deliveries: the levels are in order, and levels and index name hosts
that there are, the index by their addresses. -/
structure Cluster.Sound {τ : Type} (c : Cluster τ) : Prop where
  regular : c.priorities.Regular
  known : ∀ p, ∀ i ∈ c.priorities.hostsAt p, i < c.hosts.size
  mapped : ∀ a e, Assoc.find? a c.priorities.addressMap = some e →
    e < c.hosts.size ∧ c.hosts.addressText e = a

namespace DynamicCluster

variable {τ : Type}

section Arrivals

variable (dc : DynamicCluster τ) (a : Assignment)

/-- The endpoints of an assignment with the hosts that are made for them. -/
def arrivals : List Arrival := a.arrivals dc.cluster.hosts.size

def arrivalsAt (p : Nat) : List Arrival := (dc.arrivals a).filter fun x => x.level = p

/-- The installed host that an endpoint updates in place. -/
def heir? (x : Arrival) : Option HostId :=
  (Assoc.find? x.text dc.cluster.priorities.addressMap).filter fun e =>
    Reconcile.fits dc.cluster.rules (dc.cluster.hosts.get e) x.host

/-- The host that stands for an endpoint after the delivery. -/
def member (x : Arrival) : HostId := (dc.heir? x).getD x.id

/-- An endpoint of level `p` updates the host at the address in place. -/
def Renewed (p : Nat) (address : String) : Prop :=
  ∃ x ∈ dc.arrivalsAt a p, x.text = address ∧ (dc.heir? x).isSome

/-- An endpoint of level `p` gets a host of its own at the address. -/
def Refreshed (p : Nat) (address : String) : Prop :=
  ∃ x ∈ dc.arrivalsAt a p, x.text = address ∧ dc.heir? x = none

theorem registered_plan :
    Draft.Registered a.groups dc.cluster.hosts (dc.plan a).2 (dc.plan a).1.draft :=
  Draft.registered_registerGroups a.groups dc.cluster.hosts

variable {dc a} {p : Nat}

theorem member_of_heir? {x : Arrival} {e : HostId} (h : dc.heir? x = some e) : dc.member x = e := by
  rw [member, h, Option.getD_some]

theorem member_of_fresh {x : Arrival} (h : dc.heir? x = none) : dc.member x = x.id := by
  rw [member, h, Option.getD_none]

theorem mem_arrivalsAt {x : Arrival} :
    x ∈ dc.arrivalsAt a p ↔ x ∈ dc.arrivals a ∧ x.level = p := by
  simp only [arrivalsAt, List.mem_filter, decide_eq_true_eq]

theorem hostsAt_draft : (dc.plan a).1.draft.hostsAt p = (dc.arrivalsAt a p).map Arrival.id :=
  (dc.registered_plan a).hostsAt p

theorem size_le_plan : dc.cluster.hosts.size ≤ (dc.plan a).2.size := by
  rw [(dc.registered_plan a).size]
  exact Nat.le_add_right _ _

theorem exists_arrival {i : HostId} (hi : dc.cluster.hosts.size ≤ i) (hlt : i < (dc.plan a).2.size) :
    ∃ x ∈ dc.arrivals a, x.id = i := (dc.registered_plan a).exists_arrival hi hlt

theorem exists_hostsAt {P : HostId → Prop} :
    (∃ id ∈ (dc.plan a).1.draft.hostsAt p, P id) ↔ ∃ x ∈ dc.arrivalsAt a p, P x.id := by
  rw [hostsAt_draft]
  simp only [List.mem_map, exists_exists_and_eq_and]

theorem forall_hostsAt {P : HostId → Prop} :
    (∀ id ∈ (dc.plan a).1.draft.hostsAt p, P id) ↔ ∀ x ∈ dc.arrivalsAt a p, P x.id := by
  rw [hostsAt_draft, List.forall_mem_map]

end Arrivals

/-- What a delivery under way did not touch yet. -/
structure Underway (dc : DynamicCluster τ) (a : Assignment) (n : Nat) (r : Rollout τ) : Prop where
  regular : r.batch.priorities.Regular
  touched : ∀ q ∈ r.batch.touched, q < n
  size : r.hosts.size = (dc.plan a).2.size
  alike : ∀ i, Host.Alike ((dc.plan a).2.get i) (r.hosts.get i)
  later : ∀ x ∈ dc.arrivals a, n ≤ x.level → r.hosts.get x.id = x.host
  hostsAt : ∀ q, n ≤ q → r.hostsAt q = dc.cluster.priorities.hostsAt q
  flags : ∀ i < dc.cluster.hosts.size, ∀ f, f ≠ .pendingRemoval → f ≠ .failedDiscovery →
    f ≠ .degradedDiscovery → (r.hosts.get i).hasFlag f = (dc.cluster.hosts.get i).hasFlag f
  fewer : PrioritySet.Fewer dc.cluster.priorities r.batch.priorities

variable {dc : DynamicCluster τ} {a : Assignment}

namespace Underway

variable {n : Nat} {r : Rollout τ}

theorem start (hs : dc.cluster.Sound) : Underway dc a 0 (dc.startRollout (dc.plan a).2) := by
  have hreg := dc.registered_plan a
  have hread := PrioritySet.hears_readMap dc.cluster.priorities
  refine ⟨hread.regular hs.regular, by simp [startRollout, Batch.start], rfl, fun i => .refl _,
    fun x hx _ => hreg.new x hx, fun q _ => PrioritySet.hostsAt_congr hread.installation q,
    ?_, hread.fewer⟩
  intro i hi f _ _ _
  exact congrArg (fun h => Host.hasFlag h f) (hreg.old i hi)

theorem id_lt {x : Arrival} (hx : x ∈ dc.arrivals a) :
    dc.cluster.hosts.size ≤ x.id ∧ x.id < (dc.plan a).2.size := by
  rw [(dc.registered_plan a).size]
  exact le_id_of_mem_arrivalsOf hx

theorem not_mem_hostsAt {i : HostId} (hi : i < dc.cluster.hosts.size) (n : Nat) :
    i ∉ (dc.plan a).1.draft.hostsAt n := (dc.registered_plan a).not_mem_hostsAt hi n

theorem arrives (hs : dc.cluster.Sound) (h : Underway dc a n r) :
    Reconcile.Arrives n (dc.plan a).1.installed r.hosts ((dc.plan a).1.draft.hostsAt n) := by
  have hreg := dc.registered_plan a
  rw [hreg.hostsAt n]
  refine ⟨?_, ?_, ?_, ?_, ?_⟩
  · exact (nodup_ids_arrivalsOf a.groups dc.cluster.hosts.size).sublist
      ((List.filter_sublist).map Arrival.id)
  · intro id hid
    obtain ⟨x, hx, _, rfl⟩ := Draft.mem_idsAt.1 hid
    rw [h.size]
    exact (id_lt hx).2
  · intro id hid
    obtain ⟨x, hx, hlevel, rfl⟩ := Draft.mem_idsAt.1 hid
    rw [h.later x hx (by omega), x.host_eq, ← hlevel]
  · intro b e he
    obtain ⟨hlt, htext⟩ := hs.mapped b e he
    refine ⟨by rw [h.size]; exact Nat.lt_of_lt_of_le hlt size_le_plan, ?_⟩
    have halike := h.alike e
    rw [hreg.old e hlt] at halike
    exact (congrArg Address.text halike.address).trans htext
  · intro b e he hid
    obtain ⟨x, hx, _, rfl⟩ := Draft.mem_idsAt.1 hid
    exact Nat.not_lt.2 (id_lt hx).1 (hs.mapped b x.id he).1

theorem known (hs : dc.cluster.Sound) (h : Underway dc a n r) :
    ∀ i ∈ r.hostsAt n, i < r.hosts.size ∧ i ∉ (dc.plan a).1.draft.hostsAt n := by
  intro i hi
  rw [h.hostsAt n (Nat.le_refl n)] at hi
  have hlt := hs.known n i hi
  exact ⟨by rw [h.size]; exact Nat.lt_of_lt_of_le hlt size_le_plan, not_mem_hostsAt hlt n⟩

theorem reconciled (hs : dc.cluster.Sound) (h : Underway dc a n r) :
    Reconcile.Reconciled dc.cluster.rules dc.cluster.priorities.addressMap a.texts r.hosts
      ((dc.plan a).1.draft.hostsAt n) (r.hostsAt n) n (r.result (dc.plan a).1 n) :=
  Reconcile.reconciled_reconcile (h.arrives hs) (h.known hs)

theorem after_of_id (hs : dc.cluster.Sound) {x : Arrival} (hx : x ∈ dc.arrivals a) :
    Reconcile.after dc.cluster.rules dc.cluster.priorities.addressMap r.hosts
      ((dc.plan a).1.draft.hostsAt n) x.id = r.hosts.get x.id := by
  have hnone : Reconcile.visits dc.cluster.priorities.addressMap r.hosts
      ((dc.plan a).1.draft.hostsAt n) x.id = [] := by
    rw [Reconcile.visits, List.filter_eq_nil_iff]
    intro k _ hk
    exact Nat.not_lt.2 (id_lt hx).1 (hs.mapped _ x.id (by simpa using hk)).1
  rw [Reconcile.after, hnone, List.foldl_nil]

theorem step [Quantity τ] (hs : dc.cluster.Sound) (h : Underway dc a n r) {r' : Rollout τ}
    (hstep : Rollout.LevelStep (dc.plan a).1 n r r') : Underway dc a (n + 1) r' := by
  have hrec := h.reconciled hs
  have hsize : r'.hosts.size = r.hosts.size := by rw [hstep.hosts, hrec.size]
  have hreg := dc.registered_plan a
  refine ⟨hstep.regular, ?_, hsize.trans h.size, ?_, ?_, ?_, ?_, h.fewer.trans hstep.fewer⟩
  · intro q hq
    rcases hstep.touched q hq with rfl | hq
    · omega
    · exact Nat.lt_succ_of_lt (h.touched q hq)
  · intro i
    rw [hstep.hosts]
    exact (h.alike i).trans (hrec.alike i)
  · intro x hx hlevel
    have hid : x.id ∉ (dc.plan a).1.draft.hostsAt n := fun hm => by
      rw [hreg.hostsAt n] at hm
      obtain ⟨y, hy, hylevel, hyx⟩ := Draft.mem_idsAt.1 hm
      have := eq_of_id_eq hy hx hyx
      subst this
      omega
    have hleft : x.id ∉ Reconcile.left dc.cluster.rules dc.cluster.priorities.addressMap r.hosts
        ((dc.plan a).1.draft.hostsAt n) (r.hostsAt n) := fun hm => by
      have hm := Reconcile.left_sublist.subset hm
      rw [h.hostsAt n (Nat.le_refl n)] at hm
      exact Nat.not_lt.2 (id_lt hx).1 (hs.known n x.id hm)
    have hlt : x.id < r.hosts.size := by rw [h.size]; exact (id_lt hx).2
    rw [hstep.hosts, hrec.installed x.id hlt hid, if_neg fun h' => hleft h'.1, after_of_id hs hx]
    exact h.later x hx (by omega)
  · intro q hq
    rw [hstep.hostsAt q, if_neg fun h' => by omega]
    exact h.hostsAt q (by omega)
  · intro i hi f hp hf hd
    have hlt : i < r.hosts.size := by
      rw [h.size, hreg.size]
      omega
    have hafter : (Reconcile.after dc.cluster.rules dc.cluster.priorities.addressMap r.hosts
        ((dc.plan a).1.draft.hostsAt n) i).hasFlag f = (r.hosts.get i).hasFlag f :=
      Reconcile.hasFlag_visitAll _ _ hp hf hd
    rw [hstep.hosts, hrec.installed i hlt (not_mem_hostsAt hi n), ← h.flags i hi f hp hf hd]
    split
    · rw [Host.hasFlag_setFlag, hafter]
      simp [hp]
    · exact hafter

end Underway

/-! ## Level after level -/

section Reached

variable [Quantity τ]

/-- A delivery once the turns of the levels below `n` are over. -/
def reached (dc : DynamicCluster τ) (a : Assignment) (n : Nat) : Rollout τ :=
  (Attempt.each (rolloutLevel (dc.plan a).1) (List.range n) (dc.startRollout (dc.plan a).2)).state

/-- The cluster once the observers of the members are told of a rollout; the work before initialization
has still to end. -/
def concluding (dc : DynamicCluster τ) (r : Rollout τ) : Cluster τ :=
  let c := (dc.settle r r.batch.finish).cluster
  { c with noRebuild := c.noRebuild + if r.rebuilt then 0 else 1 }

theorem cluster_complete (dc : DynamicCluster τ) (r : Rollout τ) :
    (dc.complete r).cluster = (dc.concluding r).preInitDone := rfl

theorem each_reached (hs : dc.cluster.Sound) (hf : dc.cluster.config.factorFor a ≠ 0) (n : Nat) :
    Attempt.each (rolloutLevel (dc.plan a).1) (List.range n) (dc.startRollout (dc.plan a).2) =
        .done (dc.reached a n) ∧ Underway dc a n (dc.reached a n) := by
  induction n with
  | zero => exact ⟨rfl, .start hs⟩
  | succ n ih =>
    obtain ⟨hdone, hn⟩ := ih
    have hfree : n ∉ (dc.reached a n).batch.touched := fun hm => Nat.lt_irrefl n (hn.touched n hm)
    obtain ⟨r', hr', hstep⟩ := Rollout.levelStep_rolloutLevel (d := (dc.plan a).1) hf hn.regular hfree
    have hnext : Attempt.each (rolloutLevel (dc.plan a).1) (List.range (n + 1))
        (dc.startRollout (dc.plan a).2) = .done r' := by
      rw [List.range_succ, Attempt.each_append, hdone, Attempt.andThen_done, Attempt.each_singleton, hr']
    have hreached : dc.reached a (n + 1) = r' := by rw [reached, hnext, Attempt.state]
    rw [hreached]
    exact ⟨hnext, hn.step hs hstep⟩

theorem underway_reached (hs : dc.cluster.Sound) (hf : dc.cluster.config.factorFor a ≠ 0) (n : Nat) :
    Underway dc a n (dc.reached a n) := (each_reached hs hf n).2

theorem reached_succ (hs : dc.cluster.Sound) (hf : dc.cluster.config.factorFor a ≠ 0) (n : Nat) :
    dc.reached a (n + 1) =
      if (dc.reached a n).isAlone (dc.plan a).1 n then (dc.reached a n).reconciled (dc.plan a).1 n
      else (dc.reached a n).refreshed (dc.plan a).1 n := by
  obtain ⟨hdone, hn⟩ := each_reached hs hf n
  have hfree : n ∉ (dc.reached a n).batch.touched := fun hm => Nat.lt_irrefl n (hn.touched n hm)
  have hnext := (each_reached hs hf (n + 1)).1
  rw [List.range_succ, Attempt.each_append, hdone, Attempt.andThen_done, Attempt.each_singleton,
    Rollout.rolloutLevel_eq hf hfree] at hnext
  exact (Attempt.done.inj hnext).symm

theorem levelStep_reached (hs : dc.cluster.Sound) (hf : dc.cluster.config.factorFor a ≠ 0) (n : Nat) :
    Rollout.LevelStep (dc.plan a).1 n (dc.reached a n) (dc.reached a (n + 1)) := by
  have hregular := (underway_reached hs hf n).regular
  rw [reached_succ hs hf]
  cases halone : (dc.reached a n).isAlone (dc.plan a).1 n with
  | true => exact Rollout.levelStep_of_isAlone hregular halone
  | false => exact Rollout.levelStep_of_put hregular halone

/-- What level `p` is reconciled to. -/
def resultAt (dc : DynamicCluster τ) (a : Assignment) (p : Nat) : Reconcile.Result :=
  (dc.reached a p).result (dc.plan a).1 p

def updateAt (dc : DynamicCluster τ) (a : Assignment) (p : Nat) : Update :=
  (dc.reached a p).update (dc.plan a).1 p

/-- Whether level `p` is left as it is. -/
def isAlone (dc : DynamicCluster τ) (a : Assignment) (p : Nat) : Bool :=
  (dc.reached a p).isAlone (dc.plan a).1 p

/-- The hosts of level `p` that no endpoint updates in place there. -/
def left (dc : DynamicCluster τ) (a : Assignment) (p : Nat) : List HostId :=
  Reconcile.left dc.cluster.rules dc.cluster.priorities.addressMap (dc.reached a p).hosts
    ((dc.plan a).1.draft.hostsAt p) (dc.cluster.priorities.hostsAt p)

def stays (dc : DynamicCluster τ) (a : Assignment) (p : Nat) (i : HostId) : Bool :=
  Reconcile.stays dc.cluster.rules dc.cluster.priorities.addressMap a.texts (dc.reached a p).hosts
    ((dc.plan a).1.draft.hostsAt p) i

/-- An installed host after the endpoints of level `p` met it. -/
def after (dc : DynamicCluster τ) (a : Assignment) (p : Nat) (i : HostId) : Host :=
  Reconcile.after dc.cluster.rules dc.cluster.priorities.addressMap (dc.reached a p).hosts
    ((dc.plan a).1.draft.hostsAt p) i

end Reached

end DynamicCluster

end Roster
