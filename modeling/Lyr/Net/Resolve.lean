import Lyr.Lib.Run
import Lyr.Lib.Slot

set_option autoImplicit false

namespace Lyr.Net

open Lyr.Lib

abbrev Mac := BitVec 48

structure ArpKey where
  dev : Nat
  ip : UInt32
  deriving DecidableEq, Repr

structure ArpEntry where
  dev : Option Nat
  ip : UInt32
  mac : Mac
  expiresTick : Nat
  deriving DecidableEq, Repr

def ARP_CACHE_LEN : Nat := 32

-- arp_dev and arp_ip are the key of the desk, arp_ready and arp_mac its answer; ttl in ticks.
structure Arp where
  desk : Desk ArpKey Mac
  cache : List ArpEntry
  ttl : Nat

def arpCacheLookup (cache : List ArpEntry) (key : ArpKey) (now : Nat) : Option Mac :=
  (cache.find? (fun entry => entry.dev == some key.dev && entry.ip == key.ip && decide (now < entry.expiresTick))).map (·.mac)

-- The first slot for the address, empty or expired, else the first of all.
def arpCacheStore (s : Arp) (key : ArpKey) (mac : Mac) (now : Nat) : List ArpEntry :=
  let victim := s.cache.findIdx? (fun entry =>
    (entry.dev == some key.dev && entry.ip == key.ip) || entry.dev == none || decide (now ≥ entry.expiresTick))
  s.cache.set (victim.getD 0) ⟨some key.dev, key.ip, mac, now + s.ttl⟩

-- The steps of net_arp_resolve: cache, request, frame, test of arp_ready, and the copies of arp_mac for caller and cache.
inductive ArpEvent where
  | lookup (caller : Nat) (key : ArpKey) (now : Nat)
  | request (caller : Nat) (key : ArpKey)
  | send (caller : Nat) (sent : Bool)
  | poll (caller : Nat)
  | copy (caller : Nat)
  | store (caller : Nat) (now : Nat)
  | reply (sender : ArpKey) (mac : Mac) (now : Nat)
  deriving DecidableEq, Repr

def arpDesk (s : Arp) (event : DeskEvent ArpKey Mac) : Desk ArpKey Mac := deskStep none (fun _ => true) s.desk event

def arpStep (s : Arp) : ArpEvent → Except Empty Arp
  | .lookup caller key now => match s.desk.callers[caller]?, arpCacheLookup s.cache key now with
      | some .idle, some mac => .ok { s with desk := s.desk.turn caller (.done key mac mac) }
      | _, _ => .ok s
  | .request caller key => .ok { s with desk := arpDesk s (.ask caller key) }
  | .send caller sent => .ok { s with desk := arpDesk s (.send caller sent) }
  | .poll caller => .ok { s with desk := arpDesk s (.check caller) }
  | .copy caller => .ok { s with desk := arpDesk s (.read caller) }
  | .store caller now => match s.desk.callers[caller]? with
      | some (.held key _) => .ok { s with desk := arpDesk s (.reread caller), cache := arpCacheStore s key s.desk.value now }
      | _ => .ok s
  | .reply sender mac now => .ok { s with desk := arpDesk s (.answer sender mac), cache := arpCacheStore s sender mac now }

-- Callers and cache have only MACs that replies carried for the address.
structure ArpSound (s : Arp) : Prop where
  returned : ∀ key first second, Turn.done key first second ∈ s.desk.callers → (key, first) ∈ s.desk.claims
  cached : ∀ entry ∈ s.cache, ∀ dev ∈ entry.dev, (⟨dev, entry.ip⟩, entry.mac) ∈ s.desk.claims

def freshArp (calls ttl : Nat) : Arp :=
  { desk := { key := none, ready := false, value := 0, callers := List.replicate calls .idle, claims := [] }
    cache := List.replicate ARP_CACHE_LEN ⟨none, 0, 0, 0⟩, ttl }

-- No call for another address has its request in the globals.
def ArpAlone (s : Arp) : ArpEvent → Prop
  | .request caller key => Undisturbed none s.desk (.ask caller key)
  | _ => True

instance arpAloneDecidable (s : Arp) : (event : ArpEvent) → Decidable (ArpAlone s event)
  | .request caller key => inferInstanceAs (Decidable (Undisturbed none s.desk (.ask caller key)))
  | .lookup .. | .send .. | .poll .. | .copy .. | .store .. | .reply .. => .isTrue trivial

structure ArpAnswered (s : Arp) : Prop where
  desk : Answered s.desk
  cached : ∀ entry ∈ s.cache, ∀ dev ∈ entry.dev, (⟨dev, entry.ip⟩, entry.mac) ∈ s.desk.claims

variable {s : Arp} {key : ArpKey} {mac : Mac}

theorem cache_lookup_claimed {now : Nat} (answered : ArpAnswered s)
    (found : arpCacheLookup s.cache key now = some mac) : (key, mac) ∈ s.desk.claims := by
  rw [arpCacheLookup, Option.map_eq_some_iff] at found
  obtain ⟨entry, found, rfl⟩ := found
  have fits := List.find?_some found
  simp only [Bool.and_eq_true, beq_iff_eq, decide_eq_true_eq] at fits
  have claimed := answered.cached entry (List.mem_of_find?_eq_some found) key.dev fits.1.1
  rwa [fits.1.2] at claimed

theorem cache_store_claimed (now : Nat) {claims : List (ArpKey × Mac)}
    (more : ∀ claim ∈ s.desk.claims, claim ∈ claims) (claimed : (key, mac) ∈ claims) (answered : ArpAnswered s) :
    ∀ entry ∈ arpCacheStore s key mac now, ∀ dev ∈ entry.dev, (⟨dev, entry.ip⟩, entry.mac) ∈ claims := by
  intro entry inside dev device
  rcases List.mem_or_eq_of_mem_set inside with old | rfl
  · exact more _ (answered.cached entry old dev device)
  · cases device
    exact claimed

theorem arp_claims_kept (s : Arp) (event : DeskEvent ArpKey Mac) : ∀ claim ∈ s.desk.claims, claim ∈ (arpDesk s event).claims :=
  claims_kept none (fun _ => true) s.desk event

theorem arp_desk_answered {event : DeskEvent ArpKey Mac} (answered : ArpAnswered s) (alone : Undisturbed none s.desk event) :
    ArpAnswered { s with desk := arpDesk s event } :=
  ⟨answered_step none (fun _ => true) s.desk event answered.desk alone,
    fun entry inside dev device => arp_claims_kept s event _ (answered.cached entry inside dev device)⟩

theorem arp_answered_step (s : Arp) (event : ArpEvent) (next : Arp) (answered : ArpAnswered s) (alone : ArpAlone s event)
    (taken : arpStep s event = .ok next) : ArpAnswered next := by
  cases event with
  | lookup caller key now =>
    rw [arpStep] at taken
    split at taken
    next mac idle found =>
      have claimed := cache_lookup_claimed answered found
      rw [← Except.ok.inj taken]
      refine ⟨answered_turn caller answered.desk nofun nofun
        (fun answer read => ?_), answered.cached⟩
      rcases List.mem_pair.mp read with rfl | rfl
      · exact claimed
      · exact claimed
    · exact Except.ok.inj taken ▸ answered
  | request caller key => exact Except.ok.inj taken ▸ arp_desk_answered answered alone
  | send | poll | copy => exact Except.ok.inj taken ▸ arp_desk_answered answered trivial
  | store caller now =>
    rw [arpStep] at taken
    split at taken
    next key first held =>
      have claimed := answered.desk.seen _ (List.mem_of_getElem? held) key rfl
      rw [← Except.ok.inj taken]
      exact ⟨answered_step none (fun _ => true) s.desk (.reread caller) answered.desk trivial,
        cache_store_claimed now (arp_claims_kept s _) (arp_claims_kept s _ _ claimed) answered⟩
    · exact Except.ok.inj taken ▸ answered
  | reply sender mac now =>
    rw [← Except.ok.inj taken]
    refine ⟨answered_step none (fun _ => true) s.desk (.answer sender mac) answered.desk trivial,
      cache_store_claimed now (arp_claims_kept s _) ?_ answered⟩
    rw [arpDesk, deskStep]
    split
    · exact List.mem_cons_self
    · exact List.mem_cons_self

theorem arp_answered_sound (s : Arp) (answered : ArpAnswered s) : ArpSound s :=
  ⟨fun _ _ _ inside => answered.desk.answers _ inside _ List.mem_cons_self, answered.cached⟩

theorem fresh_arp_answered (calls ttl : Nat) : ArpAnswered (freshArp calls ttl) := by
  refine ⟨fresh_answered calls 0, fun entry inside dev device => ?_⟩
  rw [List.eq_of_mem_replicate inside] at device
  cases device

-- dns_dev, dns_query_port and dns_query_id are the key of the desk, dns_ready and dns_result_ip its answer.
structure DnsKey where
  dev : Nat
  port : UInt16
  id : UInt16
  deriving DecidableEq, Repr

structure Dns where
  queryId : UInt16
  desk : Desk DnsKey UInt32

def dnsNextId (id : UInt16) : UInt16 := if id + 1 = 0 then 1 else id + 1

def dnsQueryPort (id : UInt16) : UInt16 := UInt16.ofNat (49152 + id.toNat % 16384)

-- The steps of net_dns_resolve_dev from the query id on: tests of dns_ready and dns_result_ip, and the copy.
inductive DnsEvent where
  | query (caller : Nat) (dev : Nat)
  | send (caller : Nat) (sent : Bool)
  | poll (caller : Nat)
  | test (caller : Nat)
  | copy (caller : Nat)
  | response (dev : Nat) (dstPort id : UInt16) (ip : UInt32)
  deriving DecidableEq, Repr

def dnsDesk (s : Dns) (event : DeskEvent DnsKey UInt32) : Desk DnsKey UInt32 := deskStep (some 0) (fun ip => ip != 0) s.desk event

def dnsQuery (s : Dns) (caller dev : Nat) : DeskEvent DnsKey UInt32 :=
  .ask caller ⟨dev, dnsQueryPort (dnsNextId s.queryId), dnsNextId s.queryId⟩

def dnsStep (s : Dns) : DnsEvent → Except Empty Dns
  | .query caller dev => match s.desk.callers[caller]? with
      | some .idle => .ok { s with queryId := dnsNextId s.queryId, desk := dnsDesk s (dnsQuery s caller dev) }
      | _ => .ok s
  | .send caller sent => .ok { s with desk := dnsDesk s (.send caller sent) }
  | .poll caller => .ok { s with desk := dnsDesk s (.check caller) }
  | .test caller => .ok { s with desk := dnsDesk s (.read caller) }
  | .copy caller => .ok { s with desk := dnsDesk s (.reread caller) }
  | .response dev dstPort id ip => .ok { s with desk := dnsDesk s (.answer ⟨dev, dstPort, id⟩ ip) }

def DnsSound (s : Dns) : Prop := ∀ key first second, Turn.done key first second ∈ s.desk.callers → (key, second) ∈ s.desk.claims

def freshDns (calls : Nat) (queryId : UInt16) : Dns :=
  { queryId, desk := { key := none, ready := false, value := 0, callers := List.replicate calls .idle, claims := [] } }

def DnsAlone (s : Dns) : DnsEvent → Prop
  | .query caller dev => Undisturbed (some 0) s.desk (dnsQuery s caller dev)
  | _ => True

instance dnsAloneDecidable (s : Dns) : (event : DnsEvent) → Decidable (DnsAlone s event)
  | .query caller dev => inferInstanceAs (Decidable (Undisturbed (some 0) s.desk (dnsQuery s caller dev)))
  | .send .. | .poll .. | .test .. | .copy .. | .response .. => .isTrue trivial

theorem dns_answered_step (s : Dns) (event : DnsEvent) (next : Dns) (answered : Answered s.desk) (alone : DnsAlone s event)
    (taken : dnsStep s event = .ok next) : Answered next.desk := by
  have moved (event : DeskEvent DnsKey UInt32) (alone : Undisturbed (some 0) s.desk event) : Answered (dnsDesk s event) :=
    answered_step (some 0) (fun ip => ip != 0) s.desk event answered alone
  cases event with
  | query caller dev =>
    rw [dnsStep] at taken
    split at taken
    · exact Except.ok.inj taken ▸ moved (dnsQuery s caller dev) alone
    · exact Except.ok.inj taken ▸ answered
  | send caller sent => exact Except.ok.inj taken ▸ moved (.send caller sent) trivial
  | poll caller => exact Except.ok.inj taken ▸ moved (.check caller) trivial
  | test caller => exact Except.ok.inj taken ▸ moved (.read caller) trivial
  | copy caller => exact Except.ok.inj taken ▸ moved (.reread caller) trivial
  | response dev dstPort id ip => exact Except.ok.inj taken ▸ moved (.answer ⟨dev, dstPort, id⟩ ip) trivial

theorem dns_answered_sound (s : Dns) (answered : Answered s.desk) : DnsSound s :=
  fun _ _ _ inside => answered.answers _ inside _ (List.mem_cons_of_mem _ List.mem_cons_self)

theorem resolvers_not_crossed (calls ttl : Nat) (queryId : UInt16) (arpEvents : List ArpEvent) (dnsEvents : List DnsEvent) :
    (Permitted arpStep ArpAlone (freshArp calls ttl) arpEvents → Always arpStep ArpSound (freshArp calls ttl) arpEvents) ∧
      (Permitted dnsStep DnsAlone (freshDns calls queryId) dnsEvents → Always dnsStep DnsSound (freshDns calls queryId) dnsEvents) :=
        by
  constructor
  · intro permitted
    exact permitted_always arp_answered_step (fresh_arp_answered calls ttl) arp_answered_sound permitted
  intro permitted
  exact permitted_always dns_answered_step (fresh_answered calls 0) dns_answered_sound permitted

def arpTurns : List ArpEvent :=
  [.lookup 0 ⟨0, 1⟩ 5, .request 0 ⟨0, 1⟩, .send 0 true, .reply ⟨0, 1⟩ 0xaa 6, .poll 0, .copy 0, .store 0 6,
    .lookup 1 ⟨0, 2⟩ 7, .request 1 ⟨0, 2⟩, .send 1 true, .reply ⟨0, 2⟩ 0xbb 8, .poll 1, .copy 1, .store 1 8]

def dnsTurns : List DnsEvent :=
  [.query 0 0, .send 0 true, .response 0 49153 1 0x01020304, .poll 0, .test 0, .copy 0,
    .query 1 0, .send 1 true, .response 0 49153 1 0x05060708, .response 0 49154 2 0x090a0b0c, .poll 1, .test 1, .copy 1]

theorem resolvers_in_turn : Always arpStep ArpSound (freshArp 2 60000) arpTurns ∧ Always dnsStep DnsSound (freshDns 2 0) dnsTurns :=
  ⟨(resolvers_not_crossed 2 60000 0 arpTurns dnsTurns).1 (by decide),
    (resolvers_not_crossed 2 60000 0 arpTurns dnsTurns).2 (by decide)⟩

-- The first caller takes the answer to the second request.
def arpCrossed : List ArpEvent :=
  [.request 0 ⟨0, 1⟩, .send 0 true, .request 1 ⟨0, 2⟩, .send 1 true, .reply ⟨0, 2⟩ 0xbb 6, .poll 0, .copy 0, .store 0 6]

def dnsCrossed : List DnsEvent :=
  [.query 0 0, .send 0 true, .query 1 0, .send 1 true, .response 0 49154 2 0x090a0b0c, .poll 0, .test 0, .copy 0]

theorem resolvers_crossed :
    (∃ final, run arpStep (freshArp 2 60000) arpCrossed = .ok final ∧ Turn.done ⟨0, 1⟩ 0xbb 0xbb ∈ final.desk.callers ∧
      arpCacheLookup final.cache ⟨0, 1⟩ 6 = some 0xbb ∧ final.desk.claims = [(⟨0, 2⟩, 0xbb)] ∧ ¬ ArpSound final) ∧
    ∃ final, run dnsStep (freshDns 2 0) dnsCrossed = .ok final ∧ ¬ DnsSound final := by
  refine ⟨⟨_, rfl, by decide, by decide, by decide, fun sound => ?_⟩, ⟨_, rfl, fun sound => ?_⟩⟩
  · exact absurd (sound.returned ⟨0, 1⟩ 0xbb 0xbb (by decide)) (by decide)
  · exact absurd (sound ⟨0, 49153, 1⟩ 0x090a0b0c 0x090a0b0c (by decide)) (by decide)

end Lyr.Net
