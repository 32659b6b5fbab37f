import Lyr.Net.Resolve

set_option autoImplicit false

namespace Lyr.Net

open Lyr.Lib

-- At the tick of its last call, with the stores so far, newest first.
structure ArpHistory where
  arp : Arp
  now : Nat
  stores : List (ArpKey × Mac × Nat)

-- Ticks since the call before. Those of pit_get_ticks are below 2^64.
inductive ArpCall where
  | lookup (key : ArpKey) (later : Nat)
  | store (key : ArpKey) (mac : Mac) (later : Nat)

def arpCall (s : ArpHistory) : ArpCall → Except Empty ArpHistory
  | .lookup _ later => .ok { s with now := s.now + later }
  | .store key mac later =>
    let now := s.now + later
    .ok { arp := { s.arp with cache := arpCacheStore s.arp key mac now }, now, stores := (key, mac, now) :: s.stores }

def freshHistory (ttl : Nat) : ArpHistory := ⟨freshArp 0 ttl, 0, []⟩

-- The test of arp_cache_lookup.
def unexpired (key : ArpKey) (now : Nat) (entry : ArpEntry) : Bool :=
  entry.dev == some key.dev && entry.ip == key.ip && decide (now < entry.expiresTick)

def newestStore (s : ArpHistory) (key : ArpKey) : Option (ArpKey × Mac × Nat) := s.stores.find? (fun store => store.1 == key)

def UniqueEntry (cache : List ArpEntry) (now : Nat) : Prop :=
  ∀ key (i j : Nat) e f, cache[i]? = some e → cache[j]? = some f → unexpired key now e = true → unexpired key now f = true → i = j

-- A lookup finds the MAC of the newest store for the pair, whose time-to-live has not passed.
structure ArpFresh (s : ArpHistory) : Prop where
  found : ∀ key mac, arpCacheLookup s.arp.cache key s.now = some mac →
    ∃ tick, newestStore s key = some (key, mac, tick) ∧ tick ≤ s.now ∧ s.now < tick + s.arp.ttl
  once : UniqueEntry s.arp.cache s.now

-- No slot ahead of the pair's unexpired entry is empty or expired.
def NoneAhead (cache : List ArpEntry) (key : ArpKey) (now : Nat) : Prop :=
  ∀ i j : Fin cache.length, j < i → unexpired key now cache[i] = true → cache[j].dev ≠ none ∧ now < cache[j].expiresTick

def StoresInPlace (s : ArpHistory) : ArpCall → Prop
  | .lookup .. => True
  | .store key _ later => s.now + later + s.arp.ttl < 2 ^ 64 ∧ NoneAhead s.arp.cache key (s.now + later)

instance (s : ArpHistory) : (call : ArpCall) → Decidable (StoresInPlace s call)
  | .lookup .. => instDecidableTrue
  | .store .. => @instDecidableAnd _ _ (Nat.decLt ..) (Nat.decidableForallFin _)

structure ArpKept (s : ArpHistory) : Prop where
  newest : ∀ key (i : Nat) entry, s.arp.cache[i]? = some entry → unexpired key s.now entry = true →
    ∃ tick, newestStore s key = some (key, entry.mac, tick) ∧ tick ≤ s.now ∧ entry.expiresTick = tick + s.arp.ttl
  once : UniqueEntry s.arp.cache s.now

variable {s : ArpHistory} {arp : Arp} {key : ArpKey} {mac : Mac} {now later : Nat} {entry : ArpEntry}

theorem unexpired_iff : unexpired key now entry = true ↔ (entry.dev = some key.dev ∧ entry.ip = key.ip) ∧
      now < entry.expiresTick := by
  simp [unexpired]

theorem unexpired_before (live : unexpired key (now + later) entry = true) : unexpired key now entry = true := by
  rw [unexpired_iff] at live ⊢
  exact ⟨live.1, by omega⟩

theorem kept_later (later : Nat) (kept : ArpKept s) : ArpKept { s with now := s.now + later } := by
  refine ⟨fun key i entry found live => ?_, fun key i j e f first second liveE liveF =>
    kept.once key i j e f first second (unexpired_before liveE) (unexpired_before liveF)⟩
  obtain ⟨tick, newest, past, expires⟩ := kept.newest key i entry found (unexpired_before live)
  exact ⟨tick, newest, Nat.le_add_right_of_le past, expires⟩

-- Those ahead of the pair's entry are in use, unexpired and not the pair's.
theorem store_victim (mac : Mac) (once : UniqueEntry arp.cache now) (ahead : NoneAhead arp.cache key now) :
    ∃ victim, arpCacheStore arp key mac now = arp.cache.set victim ⟨some key.dev, key.ip, mac, now + arp.ttl⟩ ∧
      ∀ (i : Nat) entry, arp.cache[i]? = some entry → unexpired key now entry = true → victim = i := by
  refine ⟨_, rfl, fun i entry found live => ?_⟩
  obtain ⟨inside, rfl⟩ := List.getElem?_eq_some_iff.mp found
  refine Option.getD_eq_iff.mpr (.inl (List.findIdx?_eq_some_iff_getElem.mpr ⟨inside, ?_, fun j before stops => ?_⟩))
  · simp [(unexpired_iff.mp live).1]
  obtain ⟨used, valid⟩ := ahead ⟨i, inside⟩ ⟨j, by omega⟩ before live
  dsimp only [Fin.getElem_fin] at used valid
  have pair : arp.cache[j].dev = some key.dev ∧ arp.cache[j].ip = key.ip := by
    simpa [used, Nat.not_le.mpr valid] using stops
  have same := once key j i _ _ (List.getElem?_eq_getElem (by omega)) found (unexpired_iff.mpr ⟨pair, valid⟩) live
  omega

theorem stored_entry (mac : Mac) (once : UniqueEntry arp.cache now) (ahead : NoneAhead arp.cache key now) :
    ∃ victim, ∀ other (i : Nat) e, (arpCacheStore arp key mac now)[i]? = some e → unexpired other now e = true →
      (other = key ∧ i = victim ∧ e = ⟨some key.dev, key.ip, mac, now + arp.ttl⟩) ∨ (other ≠ key ∧ arp.cache[i]? = some e) := by
  obtain ⟨victim, stored, place⟩ := store_victim mac once ahead
  refine ⟨victim, fun other i e found live => ?_⟩
  rw [stored] at found
  by_cases here : victim = i
  · subst here
    obtain ⟨_, rfl⟩ := List.getElem?_eq_some_iff.mp found
    rw [List.getElem_set_self] at live ⊢
    obtain ⟨⟨dev, ip⟩, _⟩ := unexpired_iff.mp live
    obtain ⟨_, _⟩ := other
    cases dev
    cases ip
    exact .inl ⟨rfl, rfl, rfl⟩
  rw [List.getElem?_set_ne here] at found
  refine .inr ⟨?_, found⟩
  rintro rfl
  exact here (place i e found live)

theorem store_kept (mac : Mac) (kept : ArpKept s) (ahead : NoneAhead s.arp.cache key s.now) :
    ArpKept ⟨{ s.arp with cache := arpCacheStore s.arp key mac s.now }, s.now, (key, mac, s.now) :: s.stores⟩ := by
  obtain ⟨victim, slots⟩ := stored_entry mac kept.once ahead
  refine ⟨fun other i e found live => ?_, fun other i j e f first second liveE liveF => ?_⟩
  · rcases slots other i e found live with ⟨rfl, _, rfl⟩ | ⟨different, old⟩
    · exact ⟨s.now, by simp [newestStore], Nat.le_refl _, rfl⟩
    · obtain ⟨tick, newest, past, expires⟩ := kept.newest other i e old live
      refine ⟨tick, ?_, past, expires⟩
      rw [newestStore, List.find?_cons_of_neg (by simpa using different.symm)]
      exact newest
  · rcases slots other i e first liveE with ⟨rfl, rfl, _⟩ | ⟨different, old⟩
    · rcases slots _ j f second liveF with ⟨_, rfl, _⟩ | ⟨different, _⟩
      · rfl
      · exact absurd rfl different
    · rcases slots other j f second liveF with ⟨rfl, _, _⟩ | ⟨_, oldF⟩
      · exact absurd rfl different
      · exact kept.once other i j e f old oldF liveE liveF

theorem arp_call_kept (s : ArpHistory) (call : ArpCall) (next : ArpHistory) (kept : ArpKept s) (allowed : StoresInPlace s call)
    (taken : arpCall s call = .ok next) : ArpKept next := by
  cases call with
  | lookup key later => exact Except.ok.inj taken ▸ kept_later later kept
  | store key mac later => exact Except.ok.inj taken ▸ store_kept mac (kept_later later kept) allowed.2

theorem kept_fresh (s : ArpHistory) (kept : ArpKept s) : ArpFresh s := by
  refine ⟨fun key mac found => ?_, kept.once⟩
  rw [arpCacheLookup, Option.map_eq_some_iff] at found
  obtain ⟨entry, found, rfl⟩ := found
  have live : unexpired key s.now entry = true := List.find?_some found
  obtain ⟨i, at_i⟩ := List.mem_iff_getElem?.mp (List.mem_of_find?_eq_some found)
  obtain ⟨tick, newest, past, expires⟩ := kept.newest key i entry at_i live
  exact ⟨tick, newest, past, expires ▸ (unexpired_iff.mp live).2⟩

theorem fresh_history_kept (ttl : Nat) : ArpKept (freshHistory ttl) := by
  have empty : ∀ key (i : Nat) e, (freshHistory ttl).arp.cache[i]? = some e → ¬ unexpired key 0 e = true := by
    intro key i e found live
    rw [List.eq_of_mem_replicate (List.mem_of_getElem? found)] at live
    exact nomatch (unexpired_iff.mp live).1.1
  exact ⟨fun key i e found live => absurd live (empty key i e found),
    fun key i _ e _ found _ live => absurd live (empty key i e found)⟩

theorem arp_cache_fresh (ttl : Nat) (calls : List ArpCall) (permitted : Permitted arpCall StoresInPlace (freshHistory ttl) calls) :
    Always arpCall ArpFresh (freshHistory ttl) calls :=
  permitted_always arp_call_kept (fresh_history_kept ttl) kept_fresh permitted

theorem arp_cache_renewed : Always arpCall ArpFresh (freshHistory 60000)
    [.store ⟨0, 1⟩ 0xaa 5, .store ⟨0, 2⟩ 0xbb 1, .store ⟨0, 1⟩ 0xcc 7, .lookup ⟨0, 1⟩ 59999, .store ⟨1, 1⟩ 0xdd 1] :=
  arp_cache_fresh 60000 _ (by decide)

-- The first entry expires a tick before the second, whose renewal goes into its slot, which the full cache gives away next.
def arpRenewals : List ArpCall :=
  [.store ⟨0, 1⟩ 0xaa 0, .store ⟨0, 2⟩ 0xbb 1] ++ (List.range 30).map (fun k => .store ⟨1, UInt32.ofNat k⟩ 0xdd 0) ++
    [.store ⟨0, 2⟩ 0xcc 59999, .store ⟨0, 3⟩ 0xee 0, .lookup ⟨0, 2⟩ 0]

theorem arp_cache_stale : ∃ final, run arpCall (freshHistory 60000) arpRenewals = .ok final ∧
    arpCacheLookup final.arp.cache ⟨0, 2⟩ final.now = some 0xbb ∧ newestStore final ⟨0, 2⟩ = some (⟨0, 2⟩, 0xcc, 60000) ∧
      ¬ ArpFresh final := by
  have stale : ∀ final, arpCacheLookup final.arp.cache ⟨0, 2⟩ final.now = some 0xbb →
      newestStore final ⟨0, 2⟩ = some (⟨0, 2⟩, 0xcc, 60000) → ¬ ArpFresh final := by
    intro final found newest fresh
    obtain ⟨tick, same, _⟩ := fresh.found _ _ found
    rw [newest] at same
    cases same
  exact ⟨_, rfl, by decide, by decide, stale _ (by decide) (by decide)⟩

end Lyr.Net
