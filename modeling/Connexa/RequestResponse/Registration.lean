import Mathlib.Tactic.IntervalCases
import Connexa.Time
import Connexa.RequestResponse.Codec

/-!
# Registering request-response protocols

A node has ten slots for request-response behaviours, `rr_0` to `rr_9`.
`with_request_response` cuts its list down to ten configurations, and
`Behaviour::new` puts each of them into the slot of its position, unless an
earlier one has the same protocol.  A table from protocols to positions is what a
look-up goes through.
-/

namespace Connexa.RequestResponse

open HashMap

/-- `StreamProtocol`: it is made from a string or refuses it, and is compared by
its string. -/
structure StreamProtocols (P : Type) where
  tryFromOwned : String → Except String P
  asRef : P → String
  asRef_of_ok : ∀ {name p}, tryFromOwned name = .ok p → asRef p = name
  asRef_injective : Function.Injective asRef

/-- `In`, `Out` and `Both` -/
inductive RequestResponseDirection where
  | inbound
  | outbound
  | both
  deriving DecidableEq

inductive ProtocolSupport where
  | inbound
  | outbound
  | full
  deriving DecidableEq

def RequestResponseDirection.support : RequestResponseDirection → ProtocolSupport
  | .inbound => .inbound
  | .outbound => .outbound
  | .both => .full

structure RequestResponseConfig where
  protocol : String
  timeout : Option Duration
  maxRequestSize : UInt64
  maxResponseSize : UInt64
  concurrentStreams : Option ℕ
  channelBuffer : ℕ
  protocolDirection : RequestResponseDirection
  deriving DecidableEq

/-- `RequestResponseConfig::default` -/
def RequestResponseConfig.default : RequestResponseConfig where
  protocol := "/libp2p/request-response"
  timeout := none
  maxRequestSize := 512 * 1024
  maxResponseSize := 2 * 1024 * 1024
  concurrentStreams := none
  channelBuffer := 128
  protocolDirection := .both

/-- `request_response::Behaviour` with what libp2p's behaviour in it was made
from. -/
structure Service (P : Type) where
  protocol : P
  support : ProtocolSupport
  codec : Codec
  requestTimeout : Duration
  /-- libp2p's default, if there is none. -/
  maxConcurrentStreams : Option ℕ
  state : Behaviour

/-- The slots of a node. -/
structure Slots (β : Type) where
  rr0 : Option β
  rr1 : Option β
  rr2 : Option β
  rr3 : Option β
  rr4 : Option β
  rr5 : Option β
  rr6 : Option β
  rr7 : Option β
  rr8 : Option β
  rr9 : Option β

namespace Slots

variable {β : Type}

def empty : Slots β :=
  ⟨none, none, none, none, none, none, none, none, none, none⟩

/-- The slot of an index, if there is one. -/
def get (s : Slots β) : ℕ → Option (Option β)
  | 0 => some s.rr0
  | 1 => some s.rr1
  | 2 => some s.rr2
  | 3 => some s.rr3
  | 4 => some s.rr4
  | 5 => some s.rr5
  | 6 => some s.rr6
  | 7 => some s.rr7
  | 8 => some s.rr8
  | 9 => some s.rr9
  | _ => none

def set (s : Slots β) (index : ℕ) (b : Option β) : Slots β :=
  match index with
  | 0 => { s with rr0 := b }
  | 1 => { s with rr1 := b }
  | 2 => { s with rr2 := b }
  | 3 => { s with rr3 := b }
  | 4 => { s with rr4 := b }
  | 5 => { s with rr5 := b }
  | 6 => { s with rr6 := b }
  | 7 => { s with rr7 := b }
  | 8 => { s with rr8 := b }
  | 9 => { s with rr9 := b }
  | _ => s

theorem get_empty {i : ℕ} (h : i < 10) : (empty : Slots β).get i = some none := by
  interval_cases i <;> rfl

theorem get_eq_none {s : Slots β} {i : ℕ} (h : 10 ≤ i) : s.get i = none := by
  obtain ⟨k, rfl⟩ := Nat.exists_eq_add_of_le' h
  rfl

theorem get_set_self (s : Slots β) {i : ℕ} (b : Option β) (h : i < 10) :
    (s.set i b).get i = some b := by
  interval_cases i <;> rfl

/-- The arms for different indices are about different slots. -/
theorem get_set_of_ne (s : Slots β) {i j : ℕ} (b : Option β) (h : j ≠ i) :
    (s.set i b).get j = s.get j := by
  rcases Nat.lt_or_ge j 10 with hj | hj
  · rcases Nat.lt_or_ge i 10 with hi | hi
    · interval_cases i <;> interval_cases j <;> first | rfl | exact absurd rfl h
    · obtain ⟨k, rfl⟩ := Nat.exists_eq_add_of_le' hi
      rfl
  · rw [get_eq_none hj, get_eq_none hj]

end Slots

/-- What the node's behaviour holds of request-response. -/
structure Registry (P β : Type) where
  /-- The table of `rr_man::Behaviour`. -/
  rrMan : Option (HashMap P ℕ)
  slots : Slots β

/-- What the builder has of request-response. -/
structure Builder where
  requestResponse : Bool
  requestResponseConfig : List RequestResponseConfig

def Builder.new : Builder :=
  ⟨false, []⟩

def Builder.withRequestResponse (config : List RequestResponseConfig) : Builder :=
  let config := if 10 < config.length then config.take 10 else config
  ⟨true, if config.isEmpty then config ++ [.default] else config⟩

/-- How `Behaviour::new` can fail. -/
inductive BuildError where
  | io (error : IoError)
  | panicked

section Building

variable {P : Type} [DecidableEq P] (protocols : StreamProtocols P)

/-- `request_response::Behaviour::new`, which panics if the protocol is not valid. -/
def Service.new (config : RequestResponseConfig) : Except BuildError (Service P) :=
  match protocols.tryFromOwned config.protocol with
  | .error _ => .error .panicked
  | .ok protocol => .ok
      { protocol := protocol
        support := config.protocolDirection.support
        codec := ⟨config.maxRequestSize, config.maxResponseSize⟩
        requestTimeout := config.timeout.getD (.ofSecs 120 (by decide))
        maxConcurrentStreams := config.concurrentStreams
        state := .new config.channelBuffer }

/-- `protocols.request_response.then(..)` -/
def enabledService (enabled : Bool) (config : RequestResponseConfig) :
    Except BuildError (Option (Service P)) :=
  if enabled then (Service.new protocols config).map some else .ok none

/-- The loop over the configurations, with the protocols that exist so far. -/
def register (enabled : Bool) : List (RequestResponseConfig × ℕ) →
    Slots (Service P) → HashMap P ℕ →
      Except BuildError (Slots (Service P) × HashMap P ℕ)
  | [], slots, existing => .ok (slots, existing)
  | (config, index) :: rest, slots, existing =>
      match protocols.tryFromOwned config.protocol with
      | .error text => .error (.io (.new .other text))
      | .ok protocol =>
          if protocol ∈ existing then register enabled rest slots existing
          else
            match slots.get index with
            | none => .ok (slots, existing)
            | some (some _) => register enabled rest slots existing
            | some none =>
                match enabledService protocols enabled config with
                | .error e => .error e
                | .ok service =>
                    register enabled rest (slots.set index service)
                      (existing.insert protocol index)

/-- The part of `Behaviour::new` that is about request-response. -/
def Builder.build (b : Builder) : Except BuildError (Registry P (Service P)) :=
  match register protocols b.requestResponse b.requestResponseConfig.zipIdx .empty ∅ with
  | .error e => .error e
  | .ok (slots, existing) =>
      .ok ⟨if len existing = 0 then none else some existing, slots⟩

end Building

section Lookup

variable {P β : Type} [DecidableEq P]

/-- `rr_man::Behaviour::get_protocol` behind the toggle. -/
def Registry.getProtocol (r : Registry P β) (protocol : P) : Option ℕ := do
  let manager ← r.rrMan
  manager.lookup protocol

def Registry.requestResponse (r : Registry P β) (protocol : Option P) : Option β :=
  match protocol with
  | none => r.slots.rr0
  | some protocol => do
      let index ← r.getProtocol protocol
      let slot ← r.slots.get index
      slot

end Lookup

/-! ## What registration leaves -/

section Registered

variable {P : Type} {protocols : StreamProtocols P}

/-- The configuration is for the protocol. -/
def RequestResponseConfig.isFor (config : RequestResponseConfig)
    (protocols : StreamProtocols P) (protocol : P) : Bool :=
  config.protocol = protocols.asRef protocol

/-- The protocol that a valid configuration is for. -/
theorem isFor_iff {config : RequestResponseConfig} {protocol p : P}
    (h : protocols.tryFromOwned config.protocol = .ok protocol) :
    config.isFor protocols p = true ↔ p = protocol := by
  rw [RequestResponseConfig.isFor, decide_eq_true_eq, ← protocols.asRef_of_ok h,
    protocols.asRef_injective.eq_iff]
  exact eq_comm

theorem service_new_of_ok {config : RequestResponseConfig} {protocol : P}
    (h : protocols.tryFromOwned config.protocol = .ok protocol) :
    ∃ service, Service.new protocols config = .ok service ∧
      service.protocol = protocol := by
  rw [Service.new, h]
  exact ⟨_, rfl, rfl⟩

theorem service_protocol_of_new {config : RequestResponseConfig} {service : Service P}
    (h : Service.new protocols config = .ok service) :
    ∃ protocol, protocols.tryFromOwned config.protocol = .ok protocol ∧
      service.protocol = protocol := by
  unfold Service.new at h
  split at h
  · cases h
  · next protocol hok =>
    cases h
    exact ⟨protocol, hok, rfl⟩

variable [DecidableEq P]

/-- Table and slots after a list of configurations. -/
structure Registered (protocols : StreamProtocols P) (done : List RequestResponseConfig)
    (slots : Slots (Service P)) (existing : HashMap P ℕ) : Prop where
  table : ∀ p, existing.lookup p = done.findIdx? (·.isFor protocols p)
  slot : ∀ p i config, done.findIdx? (·.isFor protocols p) = some i →
    done[i]? = some config → ∃ service, Service.new protocols config = .ok service ∧
      slots.get i = some (some service)
  free : ∀ i, done.length ≤ i → i < 10 → slots.get i = some none
  valid : ∀ config ∈ done, ∃ p, protocols.tryFromOwned config.protocol = .ok p

theorem registered_nil (protocols : StreamProtocols P) :
    Registered protocols [] .empty ∅ where
  table p := AList.lookup_empty p
  slot := nofun
  free _ _ hi := Slots.get_empty hi
  valid := nofun

variable {done : List RequestResponseConfig} {slots : Slots (Service P)}
  {existing : HashMap P ℕ} {config : RequestResponseConfig} {protocol : P}

/-- A configuration whose protocol is there is skipped. -/
theorem Registered.skip (h : Registered protocols done slots existing)
    (hok : protocols.tryFromOwned config.protocol = .ok protocol)
    (hmem : protocol ∈ existing) :
    Registered protocols (done ++ [config]) slots existing := by
  obtain ⟨index, hindex⟩ := mem_iff_exists_lookup.mp hmem
  -- the first configuration for any protocol stays the same
  have hfirst : ∀ p, (done ++ [config]).findIdx? (·.isFor protocols p) =
      done.findIdx? (·.isFor protocols p) := by
    intro p
    rw [List.findIdx?_append]
    by_cases hp : p = protocol
    · subst hp
      rw [← h.table p, hindex]
      rfl
    · have hnot : config.isFor protocols p = false := by
        rw [← Bool.not_eq_true, isFor_iff hok]
        exact hp
      simp [hnot]
  refine ⟨fun p => (h.table p).trans (hfirst p).symm, ?_, ?_, ?_⟩
  · intro p i c hp hc
    rw [hfirst p] at hp
    obtain ⟨hi, -⟩ := List.findIdx?_eq_some_iff_getElem.mp hp
    rw [List.getElem?_append_left hi] at hc
    exact h.slot p i c hp hc
  · intro i hlength hi
    rw [List.length_append] at hlength
    exact h.free i (by omega) hi
  · intro c hc
    rcases List.mem_append.mp hc with hc | hc
    · exact h.valid c hc
    · rw [List.mem_singleton.mp hc]
      exact ⟨protocol, hok⟩

/-- A new protocol gets the slot of its position. -/
theorem Registered.add (h : Registered protocols done slots existing)
    (hok : protocols.tryFromOwned config.protocol = .ok protocol)
    (hmem : protocol ∉ existing) (hlength : done.length < 10) {service : Service P}
    (hservice : Service.new protocols config = .ok service) :
    Registered protocols (done ++ [config]) (slots.set done.length (some service))
      (existing.insert protocol done.length) := by
  have hnone : done.findIdx? (·.isFor protocols protocol) = none := by
    rw [← h.table protocol, AList.lookup_eq_none]
    exact hmem
  have hfirst : ∀ p, (done ++ [config]).findIdx? (·.isFor protocols p) =
      if p = protocol then some done.length else done.findIdx? (·.isFor protocols p) := by
    intro p
    rw [List.findIdx?_append]
    by_cases hp : p = protocol
    · subst hp
      have hfor : config.isFor protocols p = true := (isFor_iff hok).mpr rfl
      simp [hnone, hfor]
    · have hnot : config.isFor protocols p = false := by
        rw [← Bool.not_eq_true, isFor_iff hok]
        exact hp
      simp [hnot, hp]
  refine ⟨fun p => ?_, ?_, ?_, ?_⟩
  · rw [hfirst p, HashMap.lookup_insert, h.table p]
  · intro p i c hp hc
    rw [hfirst p] at hp
    by_cases hprotocol : p = protocol
    · rw [if_pos hprotocol] at hp
      cases hp
      rw [List.getElem?_concat_length] at hc
      cases hc
      exact ⟨service, hservice, Slots.get_set_self _ _ hlength⟩
    · rw [if_neg hprotocol] at hp
      obtain ⟨hi, -⟩ := List.findIdx?_eq_some_iff_getElem.mp hp
      rw [List.getElem?_append_left hi] at hc
      rw [Slots.get_set_of_ne _ _ (by omega)]
      exact h.slot p i c hp hc
  · intro i hle hi
    rw [List.length_append, List.length_singleton] at hle
    rw [Slots.get_set_of_ne _ _ (by omega)]
    exact h.free i (by omega) hi
  · intro c hc
    rcases List.mem_append.mp hc with hc | hc
    · exact h.valid c hc
    · rw [List.mem_singleton.mp hc]
      exact ⟨protocol, hok⟩

/-- The loop leaves what the whole list says, if all its protocols are valid, and
otherwise fails without a panic. -/
theorem registered_of_register {rest : List RequestResponseConfig}
    (h : Registered protocols done slots existing)
    (hlength : (done ++ rest).length ≤ 10) :
    (∃ slots' existing',
      register protocols true (rest.zipIdx done.length) slots existing =
        .ok (slots', existing') ∧ Registered protocols (done ++ rest) slots' existing') ∨
    ∃ text, register protocols true (rest.zipIdx done.length) slots existing =
      .error (.io (.new .other text)) := by
  induction rest generalizing done slots existing with
  | nil =>
      rw [List.append_nil]
      exact Or.inl ⟨slots, existing, rfl, h⟩
  | cons config rest ih =>
      rw [List.length_append, List.length_cons] at hlength
      have hnext : ∀ {slots existing},
          Registered protocols (done ++ [config]) slots existing →
          (∃ slots' existing', register protocols true (rest.zipIdx (done.length + 1))
            slots existing = .ok (slots', existing') ∧
              Registered protocols (done ++ config :: rest) slots' existing') ∨
          ∃ text, register protocols true (rest.zipIdx (done.length + 1)) slots existing =
            .error (.io (.new .other text)) := by
        intro slots existing hstep
        have hrest := ih hstep (by simp; omega)
        rwa [List.append_assoc, List.singleton_append, List.length_append,
          List.length_singleton] at hrest
      rw [List.zipIdx_cons, register]
      cases hok : protocols.tryFromOwned config.protocol with
      | error text => exact Or.inr ⟨text, rfl⟩
      | ok protocol =>
          dsimp only
          split
          · next hmem => exact hnext (h.skip hok hmem)
          · next hmem =>
            obtain ⟨service, hservice, -⟩ := service_new_of_ok hok
            have hslot := h.free done.length le_rfl (by omega)
            simp only [hslot, enabledService, hservice, if_true, Except.map]
            exact hnext (h.add hok hmem (by omega) hservice)

/-- The configurations that a node is built from: ten at most, and the default one
if there are none. -/
def effective (configs : List RequestResponseConfig) : List RequestResponseConfig :=
  if configs = [] then [.default] else configs.take 10

theorem withRequestResponse_eq (configs : List RequestResponseConfig) :
    Builder.withRequestResponse configs = ⟨true, effective configs⟩ := by
  have htake : (if 10 < configs.length then configs.take 10 else configs) =
      configs.take 10 := by
    split
    · rfl
    · rw [List.take_of_length_le (by omega)]
  rw [Builder.withRequestResponse, effective, htake]
  cases configs with
  | nil => rfl
  | cons config rest => rfl

theorem effective_length (configs : List RequestResponseConfig) :
    0 < (effective configs).length ∧ (effective configs).length ≤ 10 := by
  cases configs with
  | nil => exact ⟨Nat.one_pos, by decide⟩
  | cons config rest =>
      rw [effective, if_neg (List.cons_ne_nil _ _), List.length_take, List.length_cons]
      omega

/-- A node that was built has registered the effective configurations. -/
theorem registered_of_build {configs : List RequestResponseConfig}
    {r : Registry P (Service P)}
    (h : (Builder.withRequestResponse configs).build protocols = .ok r) :
    ∃ existing, Registered protocols (effective configs) r.slots existing ∧
      ∀ p, r.getProtocol p = existing.lookup p := by
  rw [withRequestResponse_eq] at h
  have hlength : ([] ++ effective configs).length ≤ 10 := (effective_length configs).2
  rcases registered_of_register (registered_nil protocols) hlength with
    ⟨slots, existing, heq, hregistered⟩ | ⟨text, heq⟩
  · simp only [Builder.build, List.length_nil] at h heq
    rw [heq] at h
    cases h
    refine ⟨existing, hregistered, fun p => ?_⟩
    simp only [Registry.getProtocol]
    split
    · next hzero => exact (lookup_of_len_eq_zero hzero p).symm
    · rfl
  · simp only [Builder.build, List.length_nil] at h heq
    rw [heq] at h
    cases h

variable {configs : List RequestResponseConfig} {r : Registry P (Service P)}

/-- A look-up by protocol finds the first configuration for it. -/
theorem requestResponse_some_of_build
    (h : (Builder.withRequestResponse configs).build protocols = .ok r) (p : P) :
    match (effective configs).find? (·.isFor protocols p) with
    | some config => ∃ service, Service.new protocols config = .ok service ∧
        r.requestResponse (some p) = some service
    | none => r.requestResponse (some p) = none := by
  obtain ⟨existing, hregistered, hlookup⟩ := registered_of_build h
  cases hfind : (effective configs).find? (·.isFor protocols p) with
  | none =>
      have hnone : r.getProtocol p = none := by
        rw [hlookup, hregistered.table, List.findIdx?_eq_none_iff]
        intro config hconfig
        simpa using List.find?_eq_none.mp hfind config hconfig
      simp [Registry.requestResponse, hnone]
  | some config =>
      obtain ⟨hfor, i, hi, hconfig, hbefore⟩ := List.find?_eq_some_iff_getElem.mp hfind
      have hindex : (effective configs).findIdx? (·.isFor protocols p) = some i := by
        rw [List.findIdx?_eq_some_iff_getElem]
        refine ⟨hi, hconfig ▸ hfor, fun j hj => ?_⟩
        simpa using hbefore j hj
      obtain ⟨service, hservice, hslot⟩ := hregistered.slot p i config hindex
        (List.getElem?_eq_some_iff.mpr ⟨hi, hconfig⟩)
      have hget : r.getProtocol p = some i := by
        rw [hlookup, hregistered.table, hindex]
      exact ⟨service, hservice, by simp [Registry.requestResponse, hget, hslot]⟩

/-- The first configuration is the first one for its protocol, so it has the first
slot. -/
theorem requestResponse_none_of_build
    (h : (Builder.withRequestResponse configs).build protocols = .ok r) :
    ∃ config service, (effective configs).head? = some config ∧
      Service.new protocols config = .ok service ∧
        r.requestResponse none = some service := by
  obtain ⟨existing, hregistered, -⟩ := registered_of_build h
  obtain ⟨hpos, -⟩ := effective_length configs
  cases hconfigs : effective configs with
  | nil => simp [hconfigs] at hpos
  | cons config rest =>
      rw [hconfigs] at hregistered
      obtain ⟨p, hp⟩ := hregistered.valid config List.mem_cons_self
      have hfor : config.isFor protocols p = true := (isFor_iff hp).mpr rfl
      have hzero : (config :: rest).findIdx? (·.isFor protocols p) = some 0 := by
        simp [List.findIdx?_cons, hfor]
      obtain ⟨service, hservice, hslot⟩ := hregistered.slot p 0 config hzero rfl
      exact ⟨config, service, rfl, hservice, Option.some.inj hslot⟩

theorem getProtocol_inj_of_build
    (h : (Builder.withRequestResponse configs).build protocols = .ok r) {p q : P} {i : ℕ}
    (hp : r.getProtocol p = some i) (hq : r.getProtocol q = some i) : p = q := by
  obtain ⟨existing, hregistered, hlookup⟩ := registered_of_build h
  rw [hlookup, hregistered.table] at hp hq
  obtain ⟨hi, hfor, -⟩ := List.findIdx?_eq_some_iff_getElem.mp hp
  obtain ⟨_, hfor', -⟩ := List.findIdx?_eq_some_iff_getElem.mp hq
  apply protocols.asRef_injective
  exact (of_decide_eq_true hfor).symm.trans (of_decide_eq_true hfor')

/-- Requests for a protocol go to the behaviour of the first configuration with
that name among those the node was built from, requests without a protocol to the
behaviour of the first one, and different protocols have different slots.  The node
is built from the first ten configurations, or from the default one if there are
none. -/
theorem requests_routed_to_first
    (h : (Builder.withRequestResponse configs).build protocols = .ok r) :
    (∀ p, match (effective configs).find? (·.isFor protocols p) with
      | some config => ∃ service, Service.new protocols config = .ok service ∧
          r.requestResponse (some p) = some service
      | none => r.requestResponse (some p) = none) ∧
    (∃ config service, (effective configs).head? = some config ∧
      Service.new protocols config = .ok service ∧
        r.requestResponse none = some service) ∧
    ∀ p q i, r.getProtocol p = some i → r.getProtocol q = some i → p = q :=
  ⟨requestResponse_some_of_build h, requestResponse_none_of_build h,
    fun _ _ _ => getProtocol_inj_of_build h⟩

end Registered

/-! ## Protocols that start with a slash -/

/-- Strings that start with a slash. -/
abbrev SlashProtocol := { name : String // name.toList.head? = some '/' }

def slashProtocols : StreamProtocols SlashProtocol where
  tryFromOwned name :=
    if h : name.toList.head? = some '/' then .ok ⟨name, h⟩
    else .error "string does not start with a forward slash"
  asRef protocol := protocol.1
  asRef_of_ok := by
    intro name p hok
    split at hok
    · cases hok
      rfl
    · cases hok
  asRef_injective := Subtype.val_injective

/-- Three configurations, the last two with the same protocol. -/
def repeatedConfigs : List RequestResponseConfig :=
  [{ RequestResponseConfig.default with protocol := "/a" },
    { RequestResponseConfig.default with protocol := "/b" },
    { RequestResponseConfig.default with protocol := "/b", channelBuffer := 1 }]

theorem requests_routed_to_first_repeated :
    ∃ r, (Builder.withRequestResponse repeatedConfigs).build slashProtocols = .ok r ∧
      ∃ service, r.requestResponse (some ⟨"/b", by decide⟩) = some service ∧
        service.state.channelBuffer = 128 := by
  have hbuild : ∃ r, (Builder.withRequestResponse repeatedConfigs).build slashProtocols =
      .ok r := ⟨_, rfl⟩
  obtain ⟨r, hr⟩ := hbuild
  have hfirst := (requests_routed_to_first hr).1 ⟨"/b", by decide⟩
  obtain ⟨service, hservice, hroute⟩ : ∃ service, Service.new slashProtocols
      { RequestResponseConfig.default with protocol := "/b" } = .ok service ∧
      r.requestResponse (some ⟨"/b", by decide⟩) = some service := hfirst
  cases hservice
  exact ⟨r, hr, _, hroute, rfl⟩

/-- Without any configuration a node still answers for the default protocol. -/
theorem default_protocol_registered :
    ∃ r, (Builder.withRequestResponse []).build slashProtocols = .ok r ∧
      (([] : List RequestResponseConfig).take 10).find?
        (·.isFor slashProtocols ⟨"/libp2p/request-response", by decide⟩) = none ∧
      (r.requestResponse (some ⟨"/libp2p/request-response", by decide⟩)).isSome = true :=
  ⟨_, rfl, rfl, rfl⟩

end Connexa.RequestResponse
