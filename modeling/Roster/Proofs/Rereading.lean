import Roster.Proofs.Parsing
import Roster.Proofs.Localities

/-!
# Roster.Proofs.Rereading

A configuration is decoded from its own encoding.

* `Format.written`  — a record of fields that may have no value; `record_written` and `lookup_written`
  read it back.
* `Endpoint.decode_encode`, `Assignment.decode_encode` and so on — one for each record.
* `ClusterConfig.Parsed` — every address is one that a text was read as; nothing else is asked of a
  configuration.
-/

namespace Roster

namespace Format

/-! ## Records as they are written -/

def written (rows : List (String × Option Json)) : List (String × Json) :=
  rows.filterMap fun r => r.2.map (r.1, ·)

theorem map_fst_written (rows : List (String × Option Json)) :
    ((written rows).map Prod.fst).Sublist (rows.map Prod.fst) := by
  induction rows with
  | nil => exact .slnil
  | cons r rows ih =>
    obtain ⟨name, v?⟩ := r
    cases v? with
    | none => exact ih.cons name
    | some v => exact ih.cons_cons name

theorem lookup_written_cons (name n : String) (v? : Option Json) (rows : List (String × Option Json)) :
    (written ((n, v?) :: rows)).lookup name =
      if name = n then v?.or ((written rows).lookup name) else (written rows).lookup name := by
  cases v? with
  | none => simp [written]
  | some v =>
    have hcons : written ((n, some v) :: rows) = (n, v) :: written rows := rfl
    rw [hcons, List.lookup_cons]
    by_cases hn : name = n
    · simp [hn]
    · simp [hn, beq_eq_false_iff_ne.2 hn]

theorem lookup_written_of_not_mem {name : String} {rows : List (String × Option Json)}
    (h : name ∉ rows.map Prod.fst) : (written rows).lookup name = none := by
  induction rows with
  | nil => rfl
  | cons r rows ih =>
    obtain ⟨hn, hrest⟩ := not_or.1 (mt List.mem_cons.2 h)
    rw [lookup_written_cons, if_neg hn, ih hrest]

theorem lookup_written {name : String} {v? : Option Json} {rows : List (String × Option Json)}
    (hnames : (rows.map Prod.fst).Nodup) (hmem : (name, v?) ∈ rows) :
    (written rows).lookup name = v? := by
  induction rows with
  | nil => cases hmem
  | cons r rows ih =>
    obtain ⟨hfirst, hrest⟩ := List.nodup_cons.1 hnames
    rw [lookup_written_cons]
    rcases List.mem_cons.1 hmem with rfl | hmem
    · rw [if_pos rfl, lookup_written_of_not_mem hfirst, Option.or_none]
    · rw [if_neg, ih hrest hmem]
      rintro rfl
      exact hfirst (List.mem_map.2 ⟨_, hmem, rfl⟩)

theorem distinct_of_nodup {names : List String} (h : names.Nodup) : distinct names = true := by
  induction names with
  | nil => rfl
  | cons n rest ih =>
    obtain ⟨hn, hrest⟩ := List.nodup_cons.1 h
    simp [distinct, hn, ih hrest]

/-- There is one row for each field of a record. -/
structure Complete (names : List String) (rows : List (String × Option Json)) : Prop where
  nodup : names.Nodup
  perm : (rows.map Prod.fst).Perm names

section Fields

variable {α : Type} {names : List String} {rows : List (String × Option Json)} {name : String} {v : Json}

theorem Complete.lookup {v? : Option Json} (h : Complete names rows) (hmem : (name, v?) ∈ rows) :
    (written rows).lookup name = v? :=
  lookup_written (h.perm.nodup_iff.2 h.nodup) hmem

theorem Complete.record (h : Complete names rows) :
    json.record names (.obj (written rows)) = some (written rows) := by
  have hsub := map_fst_written rows
  have hall : (written rows).all (fun p => names.contains p.1) = true := by
    refine List.all_eq_true.2 fun p hp => List.contains_iff_mem.2 ?_
    exact h.perm.subset (hsub.subset (List.mem_map_of_mem hp))
  have hdistinct : distinct ((written rows).map (·.1)) = true :=
    distinct_of_nodup ((h.perm.nodup_iff.2 h.nodup).sublist hsub)
  have hfields : json.fields? names (.obj (written rows)) = some (written rows) := rfl
  simp only [Format.record, hfields, hall, hdistinct, Bool.and_self, if_true]

theorem Complete.required {read : Json → Option α} {a : α} (h : Complete names rows)
    (hmem : (name, some v) ∈ rows) (hread : read v = some a) :
    Format.required (written rows) name read = some a := by
  rw [Format.required, h.lookup hmem]
  exact hread

theorem Complete.withDefault {read : Json → Option α} {default a : α} (h : Complete names rows)
    (hmem : (name, some v) ∈ rows) (hread : read v = some a) :
    Format.withDefault (written rows) name default read = some a := by
  rw [Format.withDefault, h.lookup hmem]
  exact hread

/-- A field that is left out where it has its default. -/
theorem Complete.unless {read : Json → Option α} {default a : α} {p : Prop} [Decidable p]
    (h : Complete names rows) (hmem : (name, if p then none else some v) ∈ rows)
    (hdefault : p → default = a) (hread : read v = some a) :
    Format.withDefault (written rows) name default read = some a := by
  rw [Format.withDefault, h.lookup hmem]
  split
  case h_1 hnone =>
    split at hnone
    case isTrue hp => exact congrArg some (hdefault hp)
    case isFalse => cases hnone
  case h_2 w hsome =>
    split at hsome
    case isTrue => cases hsome
    case isFalse =>
      cases hsome
      exact hread

theorem Complete.optional {read : Json → Option α} {encode : α → Json} {a? : Option α}
    (h : Complete names rows) (hmem : (name, a?.map encode) ∈ rows)
    (hread : ∀ a, a? = some a → read (encode a) = some a) (hnull : ∀ a, json.isNull (encode a) = false) :
    json.optional (written rows) name read = some a? := by
  rw [Format.optional, h.lookup hmem]
  cases a? with
  | none => rfl
  | some a => simp [hnull a, hread a rfl]

theorem each_map {read : Json → Option α} {encode : α → Json} {as : List α}
    (h : ∀ a ∈ as, read (encode a) = some a) : each read (as.map encode) = some as := by
  induction as with
  | nil => rfl
  | cons a as ih =>
    obtain ⟨ha, has⟩ := List.forall_mem_cons.1 h
    simp only [List.map_cons, each, ha, ih has]

theorem listOf_map {read : Json → Option α} {encode : α → Json} {as : List α}
    (h : ∀ a ∈ as, read (encode a) = some a) : json.listOf read (.arr (as.map encode)) = some as :=
  each_map h

end Fields

end Format

open Format

/-! ## Values -/

theorem string?_str (s : String) : json.string? (.str s) = some s := rfl

theorem flag?_bool (b : Bool) : json.flag? (.bool b) = some b := rfl

theorem word32?_encodeWord (w : UInt32) : word32? json (encodeWord w) = some w := by
  have hnumber : json.number? (encodeWord w) = some w.toNat := rfl
  have hle : w.toNat ≤ maxWord32 := Nat.le_of_lt_succ w.toNat_lt
  rw [word32?, bounded?, hnumber]
  simp [hle]

theorem word16?_toNat (w : UInt16) : word16? json (.int w.toNat) = some w := by
  have hnumber : json.number? (.int w.toNat) = some w.toNat := rfl
  have hle : w.toNat ≤ maxWord16 := Nat.le_of_lt_succ w.toNat_lt
  rw [word16?, bounded?, hnumber]
  simp [hle]

/-! ## Parts of an endpoint -/

theorem Metadata.decodeValues_json (fields : List (String × Json)) :
    decodeValues json fields = some fields := by
  induction fields with
  | nil => rfl
  | cons p fields ih =>
    have hvalue : json.value? p.2 = some p.2 := rfl
    simp only [decodeValues, hvalue, ih]

theorem Metadata.decode_encode (m : Metadata) : decode json m.encode = some m := by
  have hfilters : ∀ filters : List (String × List (String × Json)),
      decodeFilters json (filters.map fun p => (p.1, .obj p.2)) = some filters := by
    intro filters
    induction filters with
    | nil => rfl
    | cons p filters ih =>
      have htable : json.table? (.obj p.2) = some p.2 := rfl
      simp only [List.map_cons, decodeFilters, htable, Option.bind_some, decodeValues_json, ih]
  have htable : json.table? m.encode = some (m.filters.map fun p => (p.1, .obj p.2)) := rfl
  rw [decode, htable, Option.bind_some, hfilters, Option.map_some, ofFilters_filters]

theorem Metadata.eq_empty_of_isEmpty {m : Metadata} (h : m.isEmpty = true) : Metadata.empty = m := by
  obtain ⟨filters, _, _⟩ := m
  have hnil : filters = [] := List.isEmpty_iff.1 h
  subst hnil
  rfl

theorem Address.decode_encode {text : String} {a : Address} (h : parse text = .ok a) :
    decode json a.encode = some a := by
  have hstring : json.string? a.encode = some a.text := rfl
  simp only [decode, hstring, parse_text h]

theorem HealthStatus.decode_encode (h : HealthStatus) : decode json h.encode = some h := by
  cases h <;> rfl

/-! ## Records -/

namespace Locality

def rows (l : Locality) : List (String × Option Json) :=
  [("region", some (.str l.region)), ("sub_zone", some (.str l.subZone)), ("zone", some (.str l.zone))]

theorem complete_rows (l : Locality) : Complete fieldNames l.rows :=
  ⟨by decide, (by decide : ["region", "sub_zone", "zone"].Perm fieldNames)⟩

theorem decode_encode (l : Locality) : decode json l.encode = some l := by
  have hrows := l.complete_rows
  have hencode : l.encode = .obj (written l.rows) := rfl
  have hregion : withDefault (written l.rows) "region" "" json.string? = some l.region :=
    hrows.withDefault (by simp [rows]) (string?_str _)
  have hzone : withDefault (written l.rows) "zone" "" json.string? = some l.zone :=
    hrows.withDefault (by simp [rows]) (string?_str _)
  have hsubZone : withDefault (written l.rows) "sub_zone" "" json.string? = some l.subZone :=
    hrows.withDefault (by simp [rows]) (string?_str _)
  simp only [decode, hencode, hrows.record, Option.bind_eq_bind, Option.bind_some, hregion, hzone, hsubZone,
    Option.pure_def]

end Locality

namespace HealthCheck

def rows (h : HealthCheck) : List (String × Option Json) :=
  [("hostname", some (.str h.hostname)), ("port", some (.int h.port.toNat))]

theorem complete_rows (h : HealthCheck) : Complete fieldNames h.rows :=
  ⟨by decide, (by decide : ["hostname", "port"].Perm fieldNames)⟩

theorem decode_encode (h : HealthCheck) : decode json h.encode = some h := by
  have hrows := h.complete_rows
  have hencode : h.encode = .obj (written h.rows) := rfl
  have hport : withDefault (written h.rows) "port" 0 (word16? json) = some h.port :=
    hrows.withDefault (by simp [rows]) (word16?_toNat h.port)
  have hhostname : withDefault (written h.rows) "hostname" "" json.string? = some h.hostname :=
    hrows.withDefault (by simp [rows]) (string?_str _)
  simp only [decode, hencode, hrows.record, Option.bind_eq_bind, Option.bind_some, hport, hhostname,
    Option.pure_def]

end HealthCheck

namespace Endpoint

def rows (e : Endpoint) : List (String × Option Json) :=
  [("address", some e.address.encode), ("disable_active_health_check", some (.bool e.disableActiveCheck)),
    ("health_check", some e.healthCheck.encode), ("health_status", some e.healthStatus.encode),
    ("hostname", if e.hostname.isEmpty then none else some (.str e.hostname)),
    ("load_balancing_weight", e.weight?.map encodeWord),
    ("metadata", if e.metadata.isEmpty then none else some e.metadata.encode)]

theorem complete_rows (e : Endpoint) : Complete fieldNames e.rows :=
  ⟨by decide, (by decide : ["address", "disable_active_health_check", "health_check", "health_status",
    "hostname", "load_balancing_weight", "metadata"].Perm fieldNames)⟩

theorem encode_eq (e : Endpoint) : e.encode = .obj (written e.rows) := by
  unfold encode rows
  cases e.hostname.isEmpty <;> cases e.weight? <;> cases e.metadata.isEmpty <;> rfl

theorem decode_encode {text : String} {e : Endpoint} (h : Address.parse text = .ok e.address) :
    decode json e.encode = some e := by
  have hrows := e.complete_rows
  have haddress : required (written e.rows) "address" (Address.decode json) = some e.address :=
    hrows.required (by simp [rows]) (Address.decode_encode h)
  have hhostname : withDefault (written e.rows) "hostname" "" json.string? = some e.hostname :=
    hrows.unless (by simp [rows]) (fun hempty => (String.isEmpty_iff.1 hempty).symm) (string?_str _)
  have hcheck : withDefault (written e.rows) "health_check" {} (HealthCheck.decode json) =
      some e.healthCheck :=
    hrows.withDefault (by simp [rows]) e.healthCheck.decode_encode
  have hstatus : withDefault (written e.rows) "health_status" .unknown (HealthStatus.decode json) =
      some e.healthStatus :=
    hrows.withDefault (by simp [rows]) e.healthStatus.decode_encode
  have hweight : json.optional (written e.rows) "load_balancing_weight" (word32? json) =
      some e.weight? :=
    hrows.optional (by simp [rows]) (fun w _ => word32?_encodeWord w) fun _ => rfl
  have hmetadata : withDefault (written e.rows) "metadata" .empty (Metadata.decode json) =
      some e.metadata :=
    hrows.unless (by simp [rows]) Metadata.eq_empty_of_isEmpty e.metadata.decode_encode
  have hdisable : withDefault (written e.rows) "disable_active_health_check" false json.flag? =
      some e.disableActiveCheck :=
    hrows.withDefault (by simp [rows]) (flag?_bool _)
  simp only [decode, e.encode_eq, hrows.record, Option.bind_eq_bind, Option.bind_some, haddress, hhostname,
    hcheck, hstatus, hweight, hmetadata, hdisable, Option.pure_def]

end Endpoint

namespace EndpointGroup

def rows (g : EndpointGroup) : List (String × Option Json) :=
  [("lb_endpoints", some (.arr (g.endpoints.map Endpoint.encode))),
    ("load_balancing_weight", g.weight?.map encodeWord), ("locality", some g.locality.encode),
    ("priority", some (encodeWord g.priority))]

theorem complete_rows (g : EndpointGroup) : Complete fieldNames g.rows :=
  ⟨by decide, (by decide :
    ["lb_endpoints", "load_balancing_weight", "locality", "priority"].Perm fieldNames)⟩

theorem encode_eq (g : EndpointGroup) : g.encode = .obj (written g.rows) := by
  unfold encode rows
  cases g.weight? <;> rfl

theorem decode_encode {g : EndpointGroup}
    (h : ∀ e ∈ g.endpoints, ∃ text, Address.parse text = .ok e.address) : decode json g.encode = some g := by
  have hrows := g.complete_rows
  have hlocality : withDefault (written g.rows) "locality" {} (Locality.decode json) = some g.locality :=
    hrows.withDefault (by simp [rows]) g.locality.decode_encode
  have hweight : json.optional (written g.rows) "load_balancing_weight" (word32? json) =
      some g.weight? :=
    hrows.optional (by simp [rows]) (fun w _ => word32?_encodeWord w) fun _ => rfl
  have hpriority : withDefault (written g.rows) "priority" 0 (word32? json) = some g.priority :=
    hrows.withDefault (by simp [rows]) (word32?_encodeWord g.priority)
  have hendpoints : withDefault (written g.rows) "lb_endpoints" [] (json.listOf (Endpoint.decode json)) =
      some g.endpoints :=
    hrows.withDefault (by simp [rows]) (listOf_map fun e he =>
      (h e he).elim fun _ hparse => Endpoint.decode_encode hparse)
  simp only [decode, g.encode_eq, hrows.record, Option.bind_eq_bind, Option.bind_some, hlocality, hweight,
    hpriority, hendpoints, Option.pure_def]

end EndpointGroup

namespace Assignment

def rows (a : Assignment) : List (String × Option Json) :=
  [("endpoints", some (.arr (a.groups.map EndpointGroup.encode))),
    ("overprovisioning_factor", a.overprovisioningFactor?.map encodeWord)]

/-- Every address is one that a text was read as. -/
def Parsed (a : Assignment) : Prop :=
  ∀ g ∈ a.groups, ∀ e ∈ g.endpoints, ∃ text, Address.parse text = .ok e.address

theorem complete_rows (a : Assignment) : Complete fieldNames a.rows :=
  ⟨by decide, (by decide : ["endpoints", "overprovisioning_factor"].Perm fieldNames)⟩

theorem encode_eq (a : Assignment) : a.encode = .obj (written a.rows) := by
  unfold encode rows
  cases a.overprovisioningFactor? <;> rfl

theorem decode_encode {a : Assignment} (h : a.Parsed) : decode json a.encode = some a := by
  have hrows := a.complete_rows
  have hgroups : withDefault (written a.rows) "endpoints" [] (json.listOf (EndpointGroup.decode json)) =
      some a.groups :=
    hrows.withDefault (by simp [rows]) (listOf_map fun g hg => EndpointGroup.decode_encode (h g hg))
  have hfactor : json.optional (written a.rows) "overprovisioning_factor" (word32? json) =
      some a.overprovisioningFactor? :=
    hrows.optional (by simp [rows]) (fun w _ => word32?_encodeWord w) fun _ => rfl
  simp only [decode, a.encode_eq, hrows.record, Option.bind_eq_bind, Option.bind_some, hgroups, hfactor,
    Option.pure_def]

end Assignment

namespace ClusterConfig

def rows (c : ClusterConfig) : List (String × Option Json) :=
  [("ignore_health_on_host_removal", some (.bool c.ignoreHealthOnRemoval)),
    ("ignore_new_hosts_until_first_hc", some (.bool c.ignoreNewUntilFirstCheck)),
    ("load_assignment", c.assignment?.map Assignment.encode), ("local_cluster", some (.bool c.localCluster)),
    ("local_locality", c.localLocality?.map Locality.encode),
    ("locality_weighted_lb", some (.bool c.localityWeighted)), ("name", some (.str c.name)),
    ("overprovisioning_factor", some (encodeWord c.overprovisioningFactor))]

/-- Every address is one that a text was read as. -/
def Parsed (c : ClusterConfig) : Prop := ∀ a, c.assignment? = some a → a.Parsed

theorem complete_rows (c : ClusterConfig) : Complete fieldNames c.rows :=
  ⟨by decide, (by decide : ["ignore_health_on_host_removal", "ignore_new_hosts_until_first_hc",
    "load_assignment", "local_cluster", "local_locality", "locality_weighted_lb", "name",
    "overprovisioning_factor"].Perm fieldNames)⟩

theorem encode_eq (c : ClusterConfig) : c.encode = .obj (written c.rows) := by
  unfold encode rows
  cases c.assignment? <;> cases c.localLocality? <;> rfl

theorem decode_encode {c : ClusterConfig} (h : c.Parsed) : decode json c.encode = some c := by
  have hrows := c.complete_rows
  have hname : required (written c.rows) "name" json.string? = some c.name :=
    hrows.required (by simp [rows]) (string?_str _)
  have hfactor : withDefault (written c.rows) "overprovisioning_factor" (UInt32.ofNat defaultFactor)
      (word32? json) = some c.overprovisioningFactor :=
    hrows.withDefault (by simp [rows]) (word32?_encodeWord _)
  have hflag : ∀ (name : String) (b : Bool), (name, some (.bool b)) ∈ c.rows →
      withDefault (written c.rows) name false json.flag? = some b := fun _ _ hmem =>
    hrows.withDefault hmem (flag?_bool _)
  have hweighted := hflag "locality_weighted_lb" c.localityWeighted (by simp [rows])
  have hremoval := hflag "ignore_health_on_host_removal" c.ignoreHealthOnRemoval (by simp [rows])
  have hnew := hflag "ignore_new_hosts_until_first_hc" c.ignoreNewUntilFirstCheck (by simp [rows])
  have hlocal := hflag "local_cluster" c.localCluster (by simp [rows])
  have hlocality : json.optional (written c.rows) "local_locality" (Locality.decode json) =
      some c.localLocality? :=
    hrows.optional (by simp [rows]) (fun l _ => l.decode_encode) fun _ => rfl
  have hassignment : json.optional (written c.rows) "load_assignment" (Assignment.decode json) =
      some c.assignment? :=
    hrows.optional (by simp [rows]) (fun a ha => Assignment.decode_encode (h a ha)) fun _ => rfl
  simp only [decode, c.encode_eq, hrows.record, Option.bind_eq_bind, Option.bind_some, hname, hfactor,
    hweighted, hremoval, hnew, hlocality, hlocal, hassignment, Option.pure_def]

/-- A configuration whose addresses were read from texts is what its encoding is decoded as. So whoever
reads the encoding validates, creates and installs the same cluster. -/
theorem rereads {τ : Type} [Quantity τ] {c : ClusterConfig} (h : c.Parsed) :
    decode json c.encode = some c ∧
      ∀ d, decode json c.encode = some d →
        d.validate = c.validate ∧
          (∀ r, (Cluster.create d r : Except CreateError (Cluster τ × Registry)) = Cluster.create c r) ∧
          (Cluster.ofConfig d : Cluster τ).openStatic = (Cluster.ofConfig c : Cluster τ).openStatic ∧
          ∀ as, Service.run as (Service.opened τ .configured d) =
            Service.run as (Service.opened τ .configured c) := by
  refine ⟨decode_encode h, fun d hd => ?_⟩
  rw [decode_encode h] at hd
  cases hd
  exact ⟨rfl, fun _ => rfl, rfl, fun _ => rfl⟩

/-- A break is read over, and an address that maps another is written as it. -/
def outlying : ClusterConfig :=
  { name := "outlying"
    assignment? := some
      { groups :=
          [{ locality := { region := "east" }
             endpoints :=
              [{ address := ⟨.name "WebHost", 80⟩, healthStatus := .timeout },
                { address := ⟨.ipv6 ⟨[0, 0, 0, 0, 0, 0xffff, 0x0a00, 1], rfl⟩, 443⟩
                  weight? := some 3
                  metadata := Metadata.empty.insert "envoy.lb" "canary" (.bool true) }] }, {}] } }

theorem rereads_outlying :
    outlying.Parsed ∧ decode json outlying.encode = some outlying := by
  have hparsed : outlying.Parsed := by
    intro a ha
    cases ha
    simp only [List.forall_mem_cons, Assignment.Parsed]
    exact ⟨⟨⟨"tcp://Web\tHost:080?q", by decide +kernel⟩, ⟨"u@[::FFFF:A00:1]:443", by decide +kernel⟩,
      by simp⟩, by simp, by simp⟩
  exact ⟨hparsed, (rereads (τ := Rat) hparsed).1⟩

end ClusterConfig

end Roster
