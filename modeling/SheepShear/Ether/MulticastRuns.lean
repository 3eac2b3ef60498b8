import SheepShear.Ether.Multicast

/-!
# What becomes of the nodes and blocks

The lists of the streams share no node, and every node is a block that is in use.
Enabling an address adds a node and leaves a copy of the address behind that
nothing points to; closing a stream frees its nodes. Disabling an address frees
the node and then the address in it, which is no block.
-/

namespace SheepShear.Ether.Multicast

open IntrusiveList Steps

-- ---------------------------------------------------------------------------
-- Blocks
-- ---------------------------------------------------------------------------

/-- Two blocks that do not overlap. -/
def NoOverlap (b b' : Ptr × Nat) : Prop :=
  b.1.toNat + b.2 ≤ b'.1.toNat ∨ b'.1.toNat + b'.2 ≤ b.1.toNat

instance : Std.Symm NoOverlap := ⟨fun _ _ h => Or.symm h⟩

structure Apart (blocks : List (Ptr × Nat)) : Prop where
  pairwise : blocks.Pairwise NoOverlap
  sizes : ∀ b ∈ blocks, 0 < b.2
  inside : ∀ b ∈ blocks, b.1.toNat + b.2 ≤ 2 ^ 32

theorem Apart.noOverlap {blocks : List (Ptr × Nat)} (h : Apart blocks) {b b' : Ptr × Nat}
    (hb : b ∈ blocks) (hb' : b' ∈ blocks) (hne : b ≠ b') : NoOverlap b b' :=
  h.pairwise.forall hb hb' hne

theorem Apart.cons {blocks : List (Ptr × Nat)} (h : Apart blocks) {p : Ptr} {size : Nat}
    (hfresh : Fresh blocks p size) (hsize : 0 < size) : Apart ((p, size) :: blocks) where
  pairwise := List.pairwise_cons.mpr ⟨fun b hb => hfresh.2 b hb, h.pairwise⟩
  sizes := List.forall_mem_cons.mpr ⟨hsize, h.sizes⟩
  inside := List.forall_mem_cons.mpr ⟨hfresh.1, h.inside⟩

theorem Apart.filter {blocks : List (Ptr × Nat)} (h : Apart blocks) (P : Ptr × Nat → Bool) :
    Apart (blocks.filter P) where
  pairwise := h.pairwise.filter P
  sizes b hb := h.sizes b (List.mem_of_mem_filter hb)
  inside b hb := h.inside b (List.mem_of_mem_filter hb)

theorem Fresh.ne {blocks : List (Ptr × Nat)} {p : Ptr} {size : Nat} (hfresh : Fresh blocks p size)
    (hsize : 0 < size) {b : Ptr × Nat} (hb : b ∈ blocks) (hpos : 0 < b.2) : b.1 ≠ p := by
  rintro rfl
  have hapart := hfresh.2 b hb
  omega

theorem owned_append (t : List Event) (e : Event) : owned (t ++ [e]) =
    match e with
    | .sysalloc p size => (p, size) :: owned t
    | .sysfree p => (owned t).filter (·.1 ≠ p)
    | _ => owned t := by
  rw [owned, List.foldl_append]
  cases e <;> rfl

theorem FreesOwn.append {t : List Event} (h : FreesOwn t) {e : Event}
    (he : ∀ p, e = .sysfree p → ∃ size, (p, size) ∈ owned t) : FreesOwn (t ++ [e]) := by
  intro before p hpre
  rcases List.prefix_concat_iff.mp hpre with heq | hpre
  · obtain ⟨rfl, hlast⟩ := List.append_inj' heq rfl
    exact he p (List.cons.inj hlast).1.symm
  · exact h before p hpre

theorem FreesOwn.of_prefix {t t' : List Event} (h : FreesOwn t') (hpre : t <+: t') : FreesOwn t :=
  fun before p hbefore => h before p (hbefore.trans hpre)

-- ---------------------------------------------------------------------------
-- The lists
-- ---------------------------------------------------------------------------

/-- The nodes that the lists lead to. -/
structure Core (w : World) (lists : Nat → List Ptr) : Prop where
  walk : ∀ s ∈ w.streams, Walk w.next (w.head s) (lists s)
  closed : ∀ s ∉ w.streams, lists s = []
  nodes : ∀ s, ∀ n ∈ lists s, (n, nodeSize) ∈ owned w.trace
  alone : ∀ s s' n, n ∈ lists s → n ∈ lists s' → s = s'
  addrs : ∀ s, ((lists s).map w.addr).Nodup
  apart : Apart (owned w.trace)
  frees : FreesOwn w.trace

variable {w w' : World} {lists : Nat → List Ptr} {s : Nat} {addr : EnetAddr} {n : Ptr}

namespace Core

theorem nodup (h : Core w lists) (s : Nat) : (lists s).Nodup := .of_map _ (h.addrs s)

theorem length_le_fuel (h : Core w lists) (s : Nat) : (lists s).length ≤ w.fuel := by
  have hnodup : ((lists s).map fun n => (n, nodeSize)).Nodup :=
    (h.nodup s).map fun _ _ heq => (Prod.mk.inj heq).1
  have hsubset : ((lists s).map fun n => (n, nodeSize)) ⊆ owned w.trace := by
    intro b hb
    obtain ⟨n, hn, rfl⟩ := List.mem_map.mp hb
    exact h.nodes s n hn
  have hle := (List.subperm_of_subset hnodup hsubset).length_le
  rwa [List.length_map] at hle

theorem registered_eq (h : Core w lists) (hs : s ∈ w.streams) (addr : EnetAddr) :
    w.isMulticastRegistered s addr = some ((lists s).find? fun n => w.addr n = addr) :=
  (h.walk s hs).searchNodes_eq _ (h.length_le_fuel s)

theorem addrs_eq (h : Core w lists) (hs : s ∈ w.streams) :
    w.addrs s = some ((lists s).map w.addr) := by
  rw [World.addrs, (h.walk s hs).foldNodes_eq _ _ (h.length_le_fuel s)]
  congr 1
  have hfold : ∀ (l : List Ptr) (acc : List EnetAddr),
      l.foldl (fun acc n => acc ++ [w.addr n]) acc = acc ++ l.map w.addr := by
    intro l
    induction l with
    | nil => simp
    | cons n l ih => simp [ih]
  simpa using hfold (lists s) []

/-- A node of the stream is the only one with its address. -/
theorem find_eq (h : Core w lists) (hn : n ∈ lists s) :
    (lists s).find? (fun m => w.addr m = w.addr n) = some n := by
  cases hfind : (lists s).find? fun m => w.addr m = w.addr n with
  | none =>
    have hnone := List.find?_eq_none.mp hfind n hn
    simp at hnone
  | some m =>
    have hm := List.mem_of_find?_eq_some hfind
    have heq : w.addr m = w.addr n := by simpa using List.find?_some hfind
    rw [List.inj_on_of_nodup_map (h.addrs s) hm hn heq]

theorem log (h : Core w lists) {e : Event} (howned : owned (w.trace ++ [e]) = owned w.trace)
    (hfree : ∀ p, e ≠ .sysfree p) : Core (w.log e) lists where
  walk := h.walk
  closed := h.closed
  nodes s n hn := by
    change _ ∈ owned (w.trace ++ [e])
    rw [howned]
    exact h.nodes s n hn
  alone := h.alone
  addrs := h.addrs
  apart := by
    change Apart (owned (w.trace ++ [e]))
    rw [howned]
    exact h.apart
  frees := h.frees.append fun p hp => absurd hp (hfree p)

/-- A block that no list knows of. -/
theorem alloc (h : Core w lists) {p : Ptr} {size : Nat} (hfresh : Fresh (owned w.trace) p size)
    (hsize : 0 < size) : Core (w.log (.sysalloc p size)) lists where
  walk := h.walk
  closed := h.closed
  nodes s n hn := by
    change _ ∈ owned (w.trace ++ [_])
    rw [owned_append]
    exact List.mem_cons_of_mem _ (h.nodes s n hn)
  alone := h.alone
  addrs := h.addrs
  apart := by
    change Apart (owned (w.trace ++ [_]))
    rw [owned_append]
    exact h.apart.cons hfresh hsize
  frees := h.frees.append fun p hp => by cases hp

theorem not_mem_of_fresh (h : Core w lists) {p : Ptr} {size : Nat}
    (hfresh : Fresh (owned w.trace) p size) (hsize : 0 < size) (s : Nat) : p ∉ lists s :=
  fun hp => hfresh.ne hsize (h.nodes s p hp) (h.apart.sizes _ (h.nodes s p hp)) rfl

theorem addMulticast (h : Core w lists) (hs : s ∈ w.streams) {node : Ptr}
    (hfresh : Fresh (owned w.trace) node nodeSize) (hnew : addr ∉ (lists s).map w.addr) :
    Core (w.addMulticast s addr node) (Function.update lists s (node :: lists s)) := by
  have hnode := h.not_mem_of_fresh hfresh (by decide)
  have hne : ∀ {s' m}, m ∈ lists s' → m ≠ node := by
    rintro s' m hm rfl
    exact hnode s' hm
  have hsame : ∀ s', (lists s').map (Function.update w.addr node addr) = (lists s').map w.addr :=
    fun s' => List.map_congr_left fun m hm => Function.update_of_ne (hne hm) ..
  have hwalk : ∀ {s' p}, Walk w.next p (lists s') →
      Walk (Function.update w.next node (w.head s)) p (lists s') :=
    fun hw => hw.congr fun m hm => Function.update_of_ne (hne hm) ..
  have halloc := h.alloc hfresh (by decide)
  refine ⟨fun s' hs' => ?_, fun s' hs' => ?_, fun s' m hm => ?_, fun s₁ s₂ m h₁ h₂ => ?_, fun s' => ?_,
    halloc.apart, halloc.frees⟩
  · by_cases heq : s' = s
    · subst heq
      simp only [World.addMulticast, Function.update_self]
      refine .cons ?_
      rw [Function.update_self]
      exact hwalk (h.walk s' hs)
    · simp only [World.addMulticast, Function.update_of_ne heq]
      exact hwalk (h.walk s' hs')
  · have heq : s' ≠ s := by
      rintro rfl
      exact hs' hs
    rw [Function.update_of_ne heq]
    exact h.closed s' hs'
  · by_cases heq : s' = s
    · subst heq
      rw [Function.update_self] at hm
      rcases List.mem_cons.mp hm with rfl | hm
      · change _ ∈ owned (w.trace ++ [_])
        rw [owned_append]
        exact List.mem_cons_self ..
      · exact halloc.nodes s' m hm
    · rw [Function.update_of_ne heq] at hm
      exact halloc.nodes s' m hm
  · by_cases heq₁ : s₁ = s <;> by_cases heq₂ : s₂ = s
    · rw [heq₁, heq₂]
    · rw [heq₁, Function.update_self] at h₁
      rw [Function.update_of_ne heq₂] at h₂
      rcases List.mem_cons.mp h₁ with rfl | h₁
      · exact absurd h₂ (hnode s₂)
      · exact heq₁.trans (h.alone s s₂ m h₁ h₂)
    · rw [heq₂, Function.update_self] at h₂
      rw [Function.update_of_ne heq₁] at h₁
      rcases List.mem_cons.mp h₂ with rfl | h₂
      · exact absurd h₁ (hnode s₁)
      · exact (h.alone s₁ s m h₁ h₂).trans heq₂.symm
    · rw [Function.update_of_ne heq₁] at h₁
      rw [Function.update_of_ne heq₂] at h₂
      exact h.alone s₁ s₂ m h₁ h₂
  · by_cases heq : s' = s
    · subst heq
      simp only [World.addMulticast, Function.update_self, List.map_cons, hsame]
      exact List.nodup_cons.mpr ⟨hnew, h.addrs s'⟩
    · simp only [World.addMulticast, Function.update_of_ne heq, hsame]
      exact h.addrs s'

theorem removeMulticast (h : Core w lists) (hs : s ∈ w.streams) (hn : n ∈ lists s) :
    ∃ w', w.removeMulticast s (w.addr n) = some w' ∧
      Core w' (Function.update lists s ((lists s).erase n)) ∧ w'.trace = w.trace ++ [.sysfree n] ∧
      w'.streams = w.streams ∧ w'.addr = w.addr ∧ w'.acts = w.acts := by
  obtain ⟨first, next, hunlink, hwalk, hother⟩ :=
    (h.walk s hs).unlinkNode_eq hn (h.length_le_fuel s)
  rw [World.removeMulticast, h.registered_eq hs, h.find_eq hn]
  simp only [Option.bind_eq_bind, Option.bind_some, hunlink]
  refine ⟨_, rfl, ⟨fun s' hs' => ?_, fun s' hs' => ?_, fun s' m hm => ?_, fun s₁ s₂ m h₁ h₂ => ?_,
    fun s' => ?_, ?_, ?_⟩, rfl, rfl, rfl, rfl⟩
  · by_cases heq : s' = s
    · subst heq
      simpa only [Function.update_self] using hwalk
    · simp only [Function.update_of_ne heq]
      refine (h.walk s' hs').congr fun m hm => hother m fun hm' => heq (h.alone s' s m hm hm')
  · have heq : s' ≠ s := by
      rintro rfl
      exact hs' hs
    rw [Function.update_of_ne heq]
    exact h.closed s' hs'
  · have hm' : m ∈ lists s' ∧ m ≠ n := by
      by_cases heq : s' = s
      · subst heq
        rw [Function.update_self] at hm
        obtain ⟨hne, hm⟩ := (h.nodup s').mem_erase_iff.mp hm
        exact ⟨hm, hne⟩
      · rw [Function.update_of_ne heq] at hm
        refine ⟨hm, ?_⟩
        rintro rfl
        exact heq (h.alone s' s m hm hn)
    change _ ∈ owned (w.trace ++ [_])
    rw [owned_append]
    exact List.mem_filter.mpr ⟨h.nodes s' m hm'.1, by simpa using hm'.2⟩
  · have hsub : ∀ s', Function.update lists s ((lists s).erase n) s' ⊆ lists s' := by
      intro s'
      rw [Function.update_apply]
      split
      · next heq =>
        rw [heq]
        exact List.erase_subset
      · exact List.Subset.refl _
    exact h.alone s₁ s₂ m (hsub s₁ h₁) (hsub s₂ h₂)
  · have hsub : (Function.update lists s ((lists s).erase n) s').Sublist (lists s') := by
      rw [Function.update_apply]
      split
      · next heq =>
        rw [heq]
        exact List.erase_sublist
      · exact List.Sublist.refl _
    exact (h.addrs s').sublist (hsub.map _)
  · change Apart (owned (w.trace ++ [_]))
    rw [owned_append]
    exact h.apart.filter _
  · refine h.frees.append fun p hp => ⟨nodeSize, ?_⟩
    cases hp
    exact h.nodes s n hn

end Core

-- ---------------------------------------------------------------------------
-- The calls of the add-on
-- ---------------------------------------------------------------------------

theorem count_concat {t : List Event} {e e' : Event} (hne : e' ≠ e) :
    (t ++ [e']).count e = t.count e := by
  rw [List.count_append, List.count_singleton, if_neg (by simpa using hne), Nat.add_zero]

/-- The streams that list an address. -/
def listing (streams : Finset Nat) (addrs : Nat → List EnetAddr) (addr : EnetAddr) : Finset Nat :=
  streams.filter fun s => addr ∈ addrs s

/-- The calls that enable an address and were not undone, one for each stream that lists it. -/
def Calls (trace : List Event) (streams : Finset Nat) (addrs : Nat → List EnetAddr) : Prop :=
  ∀ addr, trace.count (.enable addr) =
    trace.count (.disable addr) + (listing streams addrs addr).card

theorem Calls.congr {trace trace' : List Event} {streams : Finset Nat}
    {addrs : Nat → List EnetAddr} (h : Calls trace streams addrs)
    (henable : ∀ addr, trace'.count (.enable addr) = trace.count (.enable addr))
    (hdisable : ∀ addr, trace'.count (.disable addr) = trace.count (.disable addr)) :
    Calls trace' streams addrs := by
  intro addr
  rw [henable, hdisable]
  exact h addr

theorem listing_update {streams : Finset Nat} {addrs : Nat → List EnetAddr} {l : List EnetAddr}
    (h : addr ∈ l ↔ addr ∈ addrs s) :
    listing streams (Function.update addrs s l) addr = listing streams addrs addr := by
  refine Finset.filter_congr fun s' _ => ?_
  by_cases heq : s' = s
  · rw [heq, Function.update_self]
    exact h
  · rw [Function.update_of_ne heq]

theorem Calls.enable {trace : List Event} {streams : Finset Nat} {addrs : Nat → List EnetAddr}
    (h : Calls trace streams addrs) (hs : s ∈ streams) (hnew : addr ∉ addrs s) :
    Calls (trace ++ [.enable addr]) streams (Function.update addrs s (addr :: addrs s)) := by
  intro addr'
  by_cases heq : addr' = addr
  · subst heq
    have hlisting : listing streams (Function.update addrs s (addr' :: addrs s)) addr' =
        insert s (listing streams addrs addr') := by
      ext s'
      simp only [listing, Finset.mem_filter, Finset.mem_insert]
      by_cases hs' : s' = s
      · subst hs'
        simp [hs]
      · rw [Function.update_of_ne hs']
        simp [hs']
    have hcard : (insert s (listing streams addrs addr')).card = (listing streams addrs addr').card + 1 :=
      Finset.card_insert_of_notMem (by simp [listing, hnew])
    rw [hlisting, hcard]
    simp [h addr']
    omega
  · rw [listing_update (by simp [heq])]
    simpa [Ne.symm heq] using h addr'

theorem Calls.disable {trace : List Event} {streams : Finset Nat} {addrs : Nat → List EnetAddr}
    (h : Calls trace streams addrs) (hs : s ∈ streams) (hold : addr ∈ addrs s)
    (hnodup : (addrs s).Nodup) :
    Calls (trace ++ [.disable addr]) streams (Function.update addrs s ((addrs s).erase addr)) := by
  intro addr'
  by_cases heq : addr' = addr
  · subst heq
    have hlisting : listing streams (Function.update addrs s ((addrs s).erase addr')) addr' =
        (listing streams addrs addr').erase s := by
      ext s'
      simp only [listing, Finset.mem_filter, Finset.mem_erase]
      by_cases hs' : s' = s
      · subst hs'
        simp [hnodup.mem_erase_iff]
      · rw [Function.update_of_ne hs']
        simp [hs']
    have hcard := Finset.card_erase_add_one (s := listing streams addrs addr') (a := s)
      (by simp [listing, hs, hold])
    rw [hlisting]
    have hcount := h addr'
    simp
    omega
  · rw [listing_update (List.mem_erase_of_ne heq)]
    simpa [Ne.symm heq] using h addr'

/-- A stream without addresses comes or goes. -/
theorem Calls.withStreams {trace : List Event} {streams streams' : Finset Nat}
    {addrs : Nat → List EnetAddr} (h : Calls trace streams addrs)
    (hsame : ∀ s, addrs s ≠ [] → (s ∈ streams' ↔ s ∈ streams)) : Calls trace streams' addrs := by
  intro addr
  have hlisting : listing streams' addrs addr = listing streams addrs addr := by
    ext s
    simp only [listing, Finset.mem_filter]
    constructor
    · rintro ⟨hs, hmem⟩
      exact ⟨(hsame s (List.ne_nil_of_mem hmem)).mp hs, hmem⟩
    · rintro ⟨hs, hmem⟩
      exact ⟨(hsame s (List.ne_nil_of_mem hmem)).mpr hs, hmem⟩
  rw [hlisting]
  exact h addr

-- ---------------------------------------------------------------------------
-- The requests
-- ---------------------------------------------------------------------------

/-- The addresses on the lists. -/
def World.listed (w : World) (lists : Nat → List Ptr) (s : Nat) : List EnetAddr :=
  (lists s).map w.addr

structure Inv (w : World) (lists : Nat → List Ptr) : Prop where
  core : Core w lists
  calls : Calls w.trace w.streams (w.listed lists)
  enabled : ∀ s addr, addr ∈ enabled w.acts s ↔ addr ∈ w.listed lists s

theorem Core.withActs (h : Core w lists) (acts : List Act) : Core { w with acts := acts } lists :=
  ⟨h.walk, h.closed, h.nodes, h.alone, h.addrs, h.apart, h.frees⟩

theorem enabled_append (acts : List Act) (a : Act) (s : Nat) : enabled (acts ++ [a]) s =
    match a with
    | .enableMulti s' addr _ _ =>
      if s' = s ∧ getAddressType addr = .multicast then insert addr (enabled acts s)
      else enabled acts s
    | .disableMulti s' addr => if s' = s then (enabled acts s).erase addr else enabled acts s
    | .closeStream s' => if s' = s then ∅ else enabled acts s
    | .openStream _ => enabled acts s := by
  rw [enabled, List.foldl_append]
  cases a <;> rfl

theorem enabled_multicast (acts : List Act) (s : Nat) :
    ∀ addr ∈ enabled acts s, getAddressType addr = .multicast := by
  induction acts using List.reverseRecOn with
  | nil => simp [enabled]
  | append_singleton acts a ih =>
    intro addr haddr
    rw [enabled_append] at haddr
    cases a with
    | openStream s' => exact ih addr haddr
    | enableMulti s' addr' copy node =>
      dsimp only at haddr
      split at haddr
      · next hcond =>
        rcases Finset.mem_insert.mp haddr with rfl | haddr
        · exact hcond.2
        · exact ih addr haddr
      · exact ih addr haddr
    | disableMulti s' addr' =>
      dsimp only at haddr
      split at haddr
      · exact ih addr (Finset.mem_of_mem_erase haddr)
      · exact ih addr haddr
    | closeStream s' =>
      dsimp only at haddr
      split at haddr
      · simp at haddr
      · exact ih addr haddr

theorem Core.find_eq_none (h : addr ∉ w.listed lists s) :
    (lists s).find? (fun n => w.addr n = addr) = none := by
  refine List.find?_eq_none.mpr fun n hn heq => h ?_
  rw [← of_decide_eq_true heq]
  exact List.mem_map_of_mem hn

theorem World.listed_add (hnode : ∀ s, n ∉ lists s) :
    (w.addMulticast s addr n).listed (Function.update lists s (n :: lists s)) =
      Function.update (w.listed lists) s (addr :: w.listed lists s) := by
  have hsame : ∀ s', (lists s').map (Function.update w.addr n addr) = (lists s').map w.addr := by
    refine fun s' => List.map_congr_left fun m hm => Function.update_of_ne ?_ ..
    rintro rfl
    exact hnode s' hm
  funext s'
  by_cases heq : s' = s
  · subst heq
    simp only [World.listed, World.addMulticast, Function.update_self, List.map_cons, hsame]
  · simp only [World.listed, World.addMulticast, Function.update_of_ne heq, hsame]

theorem Inv.enableMulti (h : Inv w lists) (hs : s ∈ w.streams) {copy node : Ptr}
    (hreq : w.enableMulti s addr copy node = some w') :
    ∃ lists', Inv { w' with acts := w'.acts ++ [.enableMulti s addr copy node] } lists' := by
  unfold World.enableMulti at hreq
  by_cases htype : getAddressType addr = .multicast
  · rw [if_neg (not_not.mpr htype), h.core.registered_eq hs] at hreq
    by_cases hold : addr ∈ w.listed lists s
    · -- the address is on the list already
      obtain ⟨n, hn, rfl⟩ := List.mem_map.mp hold
      rw [h.core.find_eq hn] at hreq
      obtain rfl := Option.some.inj hreq
      refine ⟨lists, h.core.withActs _, h.calls, fun s' addr' => ?_⟩
      rw [enabled_append]
      dsimp only
      split
      · next hcond =>
        obtain ⟨rfl, -⟩ := hcond
        rw [Finset.insert_eq_of_mem ((h.enabled s _).mpr hold)]
        exact h.enabled s addr'
      · exact h.enabled s' addr'
    · rw [Core.find_eq_none hold] at hreq
      simp only [Option.bind_eq_bind, Option.bind_some] at hreq
      split_ifs at hreq with hcopy hnode
      obtain rfl := Option.some.inj hreq
      have hlog := h.core.log (e := .enable addr) (by rw [owned_append]) (fun p => by simp)
      have halloc := hlog.alloc hcopy (by decide)
      have hfresh := halloc.not_mem_of_fresh hnode (by decide)
      refine ⟨_, (halloc.addMulticast hs hnode hold).withActs _, ?_, fun s' addr' => ?_⟩
      · have hcalls := h.calls.enable hs hold
        rw [← World.listed_add hfresh] at hcalls
        have hcount : ∀ e : Event, (∀ p size, e ≠ .sysalloc p size) →
            (w.trace ++ [Event.enable addr] ++ [Event.sysalloc copy 6] ++
                [Event.sysalloc node nodeSize]).count e =
              (w.trace ++ [Event.enable addr]).count e := by
          intro e he
          rw [count_concat (he _ _).symm, count_concat (he _ _).symm]
        exact hcalls.congr (fun _ => hcount _ nofun) fun _ => hcount _ nofun
      · change addr' ∈ Multicast.enabled (w.acts ++ [_]) s' ↔
          addr' ∈ (w.addMulticast s addr node).listed _ s'
        rw [World.listed_add hfresh, enabled_append]
        by_cases heq : s' = s
        · subst heq
          simp [htype, h.enabled]
        · simp [Ne.symm heq, heq, h.enabled]
  · rw [if_pos htype] at hreq
    obtain rfl := Option.some.inj hreq
    refine ⟨lists, h.core.withActs _, h.calls, fun s' addr' => ?_⟩
    rw [enabled_append]
    dsimp only
    rw [if_neg (fun hcond => htype hcond.2)]
    exact h.enabled s' addr'

/-- The loop frees the nodes of the stream, one after the other. -/
theorem disableAll_spec {fuel : Nat} (hcore : Core w lists)
    (hcalls : Calls w.trace w.streams (w.listed lists)) (hs : s ∈ w.streams)
    (hfuel : (lists s).length ≤ fuel) :
    ∃ w', World.disableAll s fuel w = some w' ∧ Core w' (Function.update lists s []) ∧
      Calls w'.trace w'.streams (w'.listed (Function.update lists s [])) ∧
      w'.streams = w.streams ∧ w'.addr = w.addr ∧ w'.acts = w.acts := by
  induction fuel generalizing w lists with
  | zero =>
    have hnil : lists s = [] := List.length_eq_zero_iff.mp (Nat.le_zero.mp hfuel)
    have hhead : w.head s = none := by rw [(hcore.walk s hs).head_eq, hnil]; rfl
    have hself : Function.update lists s [] = lists := by rw [← hnil, Function.update_eq_self]
    rw [World.disableAll, hhead, hself]
    exact ⟨w, rfl, hcore, hcalls, rfl, rfl, rfl⟩
  | succ fuel ih =>
    cases hlist : lists s with
    | nil =>
      have hhead : w.head s = none := by rw [(hcore.walk s hs).head_eq, hlist]; rfl
      have hself : Function.update lists s [] = lists := by rw [← hlist, Function.update_eq_self]
      rw [World.disableAll, hhead, hself]
      exact ⟨w, rfl, hcore, hcalls, rfl, rfl, rfl⟩
    | cons n ns =>
      have hhead : w.head s = some n := by rw [(hcore.walk s hs).head_eq, hlist]; rfl
      have hn : n ∈ lists s := by rw [hlist]; exact List.mem_cons_self ..
      have hlog := hcore.log (e := .disable (w.addr n)) (by rw [owned_append]) (fun p => by simp)
      obtain ⟨w₁, hw₁, hcore₁, htrace₁, hstreams₁, haddr₁, hacts₁⟩ := hlog.removeMulticast hs hn
      have herase : (lists s).erase n = ns := by rw [hlist, List.erase_cons_head]
      rw [herase] at hcore₁
      have hcalls₁ : Calls w₁.trace w₁.streams (w₁.listed (Function.update lists s ns)) := by
        have hdisable := hcalls.disable hs (List.mem_map_of_mem hn) (hcore.addrs s)
        have hlisted : w₁.listed (Function.update lists s ns) =
            Function.update (w.listed lists) s ((w.listed lists s).erase (w.addr n)) := by
          funext s'
          rw [World.listed, haddr₁]
          by_cases heq : s' = s
          · subst heq
            rw [Function.update_self, Function.update_self, World.listed, hlist, List.map_cons,
              List.erase_cons_head]
            rfl
          · rw [Function.update_of_ne heq, Function.update_of_ne heq]
            rfl
        rw [hlisted, hstreams₁, htrace₁]
        refine hdisable.congr (fun addr => ?_) fun addr => ?_
        · exact count_concat nofun
        · exact count_concat nofun
      have hlength : (Function.update lists s ns s).length ≤ fuel := by
        rw [Function.update_self]
        rw [hlist, List.length_cons] at hfuel
        omega
      obtain ⟨w', hw', hcore', hcalls', hstreams', haddr', hacts'⟩ :=
        ih hcore₁ hcalls₁ (hstreams₁.symm ▸ hs) hlength
      rw [Function.update_idem] at hcore' hcalls'
      refine ⟨w', ?_, hcore', hcalls', hstreams'.trans hstreams₁, haddr'.trans haddr₁,
        hacts'.trans hacts₁⟩
      rw [World.disableAll, hhead]
      have hw₁' : (w.log (.disable (w.addr n))).removeMulticast s (w.addr n) = some w₁ := hw₁
      simp only [hw₁', Option.bind_some]
      exact hw'

theorem Inv.closeStream (h : Inv w lists) (hs : s ∈ w.streams) (hreq : w.closeStream s = some w') :
    ∃ lists', Inv { w' with acts := w'.acts ++ [.closeStream s] } lists' := by
  obtain ⟨w₁, hw₁, hcore, hcalls, hstreams, haddr, hacts⟩ :=
    disableAll_spec h.core h.calls hs (h.core.length_le_fuel s)
  rw [World.closeStream, hw₁] at hreq
  obtain rfl := Option.some.inj hreq
  refine ⟨Function.update lists s [], ⟨fun s' hs' => ?_, fun s' hs' => ?_, hcore.nodes, hcore.alone,
    hcore.addrs, hcore.apart, hcore.frees⟩, hcalls.withStreams fun s' hne => ?_, fun s' addr => ?_⟩
  · obtain ⟨heq, hmem⟩ := Finset.mem_erase.mp hs'
    have hwalk := hcore.walk s' hmem
    simp only [Function.update_of_ne heq] at hwalk ⊢
    exact hwalk
  · by_cases heq : s' = s
    · rw [heq, Function.update_self]
    · refine hcore.closed s' fun hmem => hs' ?_
      exact Finset.mem_erase.mpr ⟨heq, hmem⟩
  · have heq : s' ≠ s := by
      rintro rfl
      simp [World.listed] at hne
    simp [heq]
  · rw [enabled_append, hacts]
    by_cases heq : s = s'
    · subst heq
      simp [World.listed]
    · dsimp only
      rw [if_neg heq, h.enabled]
      simp only [World.listed, Function.update_of_ne (Ne.symm heq), haddr]

theorem Inv.openStream (h : Inv w lists) (hs : s ∉ w.streams) :
    Inv { w with
      streams := insert s w.streams
      head := Function.update w.head s none
      acts := w.acts ++ [.openStream s] } lists := by
  have hnil := h.core.closed s hs
  refine ⟨⟨fun s' hs' => ?_, fun s' hs' => ?_, h.core.nodes, h.core.alone, h.core.addrs, h.core.apart,
    h.core.frees⟩, h.calls.withStreams fun s' hne => ?_, fun s' addr => ?_⟩
  · by_cases heq : s' = s
    · subst heq
      rw [hnil]
      simp only [Function.update_self]
      exact .nil
    · simp only [Function.update_of_ne heq]
      exact h.core.walk s' ((Finset.mem_insert.mp hs').resolve_left heq)
  · exact h.core.closed s' fun hmem => hs' (Finset.mem_insert_of_mem hmem)
  · have heq : s' ≠ s := by
      rintro rfl
      simp [World.listed, hnil] at hne
    simp [heq]
  · rw [enabled_append]
    exact h.enabled s' addr

-- ---------------------------------------------------------------------------
-- Disabling an address
-- ---------------------------------------------------------------------------

theorem Inv.disableMulti_of_not_mem (h : Inv w lists) (hs : s ∈ w.streams)
    (haddr : addr ∉ Multicast.enabled w.acts s) : w.disableMulti s addr = some w := by
  rw [h.enabled] at haddr
  rw [World.disableMulti, h.core.registered_eq hs, Core.find_eq_none haddr]
  split_ifs <;> rfl

theorem addrField_toNat (hn : n.toNat + nodeSize ≤ 2 ^ 32) : (addrField n).toNat = n.toNat + 4 := by
  rw [addrField, BitVec.toNat_add]
  simp only [nodeSize] at hn
  exact Nat.mod_eq_of_lt (by simp; omega)

/-- The address in a node is inside a block, so it is no block. -/
theorem Core.addrField_not_owned (h : Core w lists) (hn : n ∈ lists s) (size : Nat) :
    (addrField n, size) ∉ owned w.trace := by
  intro hmem
  have hnode := h.nodes s n hn
  have haddr : (addrField n).toNat = n.toNat + 4 := addrField_toNat (h.apart.inside _ hnode)
  have hne : (addrField n, size) ≠ (n, nodeSize) := by
    intro heq
    rw [(Prod.mk.inj heq).1] at haddr
    omega
  have hsize : 0 < size := h.apart.sizes _ hmem
  rcases h.apart.noOverlap hmem hnode hne with hle | hle
  · simp only [haddr] at hle
    omega
  · change n.toNat + 10 ≤ (addrField n).toNat at hle
    omega

/-- A request that is accepted frees what is no block. -/
theorem Inv.disableMulti_breaks (h : Inv w lists) (hs : s ∈ w.streams)
    (haddr : addr ∈ Multicast.enabled w.acts s) (hreq : w.disableMulti s addr = some w') :
    ¬FreesOwn w'.trace := by
  have htype := enabled_multicast w.acts s addr haddr
  obtain ⟨n, hn, rfl⟩ := List.mem_map.mp ((h.enabled s addr).mp haddr)
  obtain ⟨w₁, hw₁, -, htrace, -, haddrs, -⟩ := h.core.removeMulticast hs hn
  rw [World.disableMulti, if_neg (not_not.mpr htype), h.core.registered_eq hs, h.core.find_eq hn] at hreq
  simp only [Option.bind_eq_bind, Option.bind_some, hw₁] at hreq
  obtain rfl := Option.some.inj hreq
  intro hfrees
  have hpre : w₁.trace ++ [.sysfree (addrField n)] <+:
      ((w₁.log (.sysfree (addrField n))).log (.disable (w.addr n))).trace := List.prefix_append ..
  obtain ⟨size, hsize⟩ := hfrees _ _ hpre
  rw [htrace, owned_append] at hsize
  exact h.core.addrField_not_owned hn size (List.mem_of_mem_filter hsize)

-- ---------------------------------------------------------------------------
-- Runs
-- ---------------------------------------------------------------------------

theorem World.prefix_removeMulticast (h : w.removeMulticast s addr = some w') :
    w.trace <+: w'.trace := by
  obtain ⟨found, -, h⟩ := Option.bind_eq_some_iff.mp h
  cases found with
  | none =>
    obtain rfl := Option.some.inj h
    exact List.prefix_refl _
  | some p =>
    obtain ⟨⟨first, next⟩, -, h⟩ := Option.bind_eq_some_iff.mp h
    obtain rfl := Option.some.inj h
    exact List.prefix_append ..

theorem World.prefix_disableAll {fuel : Nat} (h : World.disableAll s fuel w = some w') :
    w.trace <+: w'.trace := by
  induction fuel generalizing w with
  | zero =>
    rw [World.disableAll] at h
    split at h
    · obtain rfl := Option.some.inj h
      exact List.prefix_refl _
    · simp at h
  | succ fuel ih =>
    rw [World.disableAll] at h
    split at h
    · obtain rfl := Option.some.inj h
      exact List.prefix_refl _
    · obtain ⟨w₁, hw₁, h⟩ := Option.bind_eq_some_iff.mp h
      exact ((List.prefix_append ..).trans (World.prefix_removeMulticast hw₁)).trans (ih h)

theorem World.prefix_enableMulti {copy node : Ptr} (h : w.enableMulti s addr copy node = some w') :
    w.trace <+: w'.trace := by
  unfold World.enableMulti at h
  split at h
  · obtain rfl := Option.some.inj h
    exact List.prefix_refl _
  · obtain ⟨found, -, h⟩ := Option.bind_eq_some_iff.mp h
    cases found with
    | some n =>
      obtain rfl := Option.some.inj h
      exact List.prefix_refl _
    | none =>
      dsimp only at h
      split_ifs at h
      obtain rfl := Option.some.inj h
      exact ((List.prefix_append ..).trans (List.prefix_append ..)).trans (List.prefix_append ..)

theorem World.prefix_disableMulti (h : w.disableMulti s addr = some w') : w.trace <+: w'.trace := by
  unfold World.disableMulti at h
  split at h
  · obtain rfl := Option.some.inj h
    exact List.prefix_refl _
  · obtain ⟨found, -, h⟩ := Option.bind_eq_some_iff.mp h
    cases found with
    | none =>
      obtain rfl := Option.some.inj h
      exact List.prefix_refl _
    | some n =>
      obtain ⟨w₁, hw₁, h⟩ := Option.bind_eq_some_iff.mp h
      obtain rfl := Option.some.inj h
      exact ((prefix_removeMulticast hw₁).trans (List.prefix_append ..)).trans (List.prefix_append ..)

/-- The events of a step come after those before it. -/
theorem prefix_step {a : Act} (h : step w a = some w') : w.trace <+: w'.trace := by
  obtain ⟨w₁, hreq, rfl⟩ := Option.map_eq_some_iff.mp h
  change w.trace <+: w₁.trace
  cases a with
  | openStream s =>
    rw [request] at hreq
    split at hreq <;>
    · obtain rfl := Option.some.inj hreq
      exact List.prefix_refl _
  | enableMulti s addr copy node =>
    rw [request] at hreq
    split at hreq
    · exact World.prefix_enableMulti hreq
    · simp at hreq
  | disableMulti s addr =>
    rw [request] at hreq
    split at hreq
    · exact World.prefix_disableMulti hreq
    · simp at hreq
  | closeStream s =>
    rw [request] at hreq
    split at hreq
    · obtain ⟨w₂, hw₂, rfl⟩ := Option.map_eq_some_iff.mp hreq
      change w.trace <+: w₂.trace
      exact World.prefix_disableAll hw₂
    · obtain rfl := Option.some.inj hreq
      exact List.prefix_refl _

theorem Inv.withAct (h : Inv w lists) {a : Act}
    (ha : ∀ s addr, addr ∈ Multicast.enabled (w.acts ++ [a]) s ↔ addr ∈ Multicast.enabled w.acts s) :
    Inv { w with acts := w.acts ++ [a] } lists :=
  ⟨h.core.withActs _, h.calls, fun s addr => (ha s addr).trans (h.enabled s addr)⟩

theorem Inv.step (h : Inv w lists) {a : Act} (hguard : NotDisabling w a)
    (hstep : Multicast.step w a = some w') : ∃ lists', Inv w' lists' := by
  obtain ⟨w₁, hreq, rfl⟩ := Option.map_eq_some_iff.mp hstep
  cases a with
  | openStream s =>
    rw [request] at hreq
    split at hreq
    · obtain rfl := Option.some.inj hreq
      refine ⟨lists, h.withAct fun s' addr => ?_⟩
      rw [enabled_append]
    · next hs =>
      obtain rfl := Option.some.inj hreq
      exact ⟨lists, h.openStream hs⟩
  | enableMulti s addr copy node =>
    rw [request] at hreq
    split at hreq
    · next hs => exact h.enableMulti hs hreq
    · simp at hreq
  | disableMulti s addr =>
    rw [request] at hreq
    split at hreq
    · next hs =>
      rw [h.disableMulti_of_not_mem hs hguard] at hreq
      obtain rfl := Option.some.inj hreq
      refine ⟨lists, h.withAct fun s' addr' => ?_⟩
      rw [enabled_append]
      dsimp only
      split
      · next heq =>
        rw [← heq, Finset.erase_eq_of_notMem hguard]
      · exact Iff.rfl
    · simp at hreq
  | closeStream s =>
    rw [request] at hreq
    split at hreq
    · next hs => exact h.closeStream hs hreq
    · next hs =>
      -- the stream was never opened
      obtain rfl := Option.some.inj hreq
      refine ⟨lists, h.withAct fun s' addr => ?_⟩
      rw [enabled_append]
      dsimp only
      split
      · next heq =>
        rw [h.enabled, World.listed, ← heq, h.core.closed s hs]
        simp
      · exact Iff.rfl

theorem Inv.balanced (h : Inv w lists) : Balanced w where
  lists s hs := ⟨_, h.core.addrs_eq hs, h.core.addrs s, fun addr => (h.enabled s addr).symm⟩
  calls addr := by
    have hlisting : w.listing addr = listing w.streams (w.listed lists) addr := by
      refine Finset.filter_congr fun s hs => ?_
      rw [h.core.addrs_eq hs]
      rfl
    rw [hlisting]
    exact h.calls addr
  frees := h.core.frees

theorem start_inv : Inv start fun _ => [] where
  core :=
    { walk := fun s hs => absurd hs (Finset.notMem_empty s)
      closed := fun _ _ => rfl
      nodes := fun _ _ hn => absurd hn List.not_mem_nil
      alone := fun _ _ _ hn => absurd hn List.not_mem_nil
      addrs := fun _ => List.nodup_nil
      apart := ⟨List.Pairwise.nil, by simp [start, owned], by simp [start, owned]⟩
      frees := fun before p hbefore => by simp [start] at hbefore }
  calls addr := rfl
  enabled s addr := by simp [start, Multicast.enabled, World.listed]

/-- The lists of the streams are those of some nodes. -/
def Sound (w : World) : Prop := ∃ lists, Inv w lists

theorem start_sound : Sound start := ⟨_, start_inv⟩

theorem Sound.step {a : Act} (h : Sound w) (hguard : NotDisabling w a)
    (hstep : Multicast.step w a = some w') : Sound w' := by
  obtain ⟨lists, h⟩ := h
  exact h.step hguard hstep

theorem Sound.frees (h : Sound w) : FreesOwn w.trace := by
  obtain ⟨lists, h⟩ := h
  exact h.core.frees

theorem Sound.breaks {a : Act} (h : Sound w) (hguard : ¬NotDisabling w a)
    (hstep : Multicast.step w a = some w') : ¬FreesOwn w'.trace := by
  obtain ⟨lists, h⟩ := h
  obtain ⟨w₁, hreq, rfl⟩ := Option.map_eq_some_iff.mp hstep
  change ¬FreesOwn w₁.trace
  cases a with
  | disableMulti s addr =>
    rw [request] at hreq
    split at hreq
    · next hs => exact h.disableMulti_breaks hs (not_not.mp hguard) hreq
    · simp at hreq
  | _ => exact absurd trivial hguard

/-- The books balance in exactly the runs in which no address is disabled. -/
theorem multicast_balanced_iff {acts : List Act} (hrun : run step start acts = some w) :
    Balanced w ↔ Guarded step NotDisabling start acts := by
  have hfrees : FreesOwn w.trace ↔ Guarded step NotDisabling start acts :=
    good_iff_guarded Sound.frees Sound.step Sound.breaks
      (fun hstep hfrees => hfrees.of_prefix (prefix_step hstep)) start_sound hrun
  refine ⟨fun h => hfrees.mp h.frees, fun hguarded => ?_⟩
  have hreaches := Reaches.start.run_append hrun hguarded
  obtain ⟨lists, h⟩ := hreaches.invariant start_sound Sound.step
  exact h.balanced

/-- The group of all hosts. -/
def allHosts : EnetAddr := ![0x01, 0x00, 0x5e, 0x00, 0x00, 0x01]

def shared : List Act :=
  [.openStream 0, .enableMulti 0 allHosts 0x1000 0x2000, .openStream 1,
    .enableMulti 1 allHosts 0x3000 0x4000, .closeStream 0]

def sharedTrace : List Event :=
  [.enable allHosts, .sysalloc 0x1000 6, .sysalloc 0x2000 10, .enable allHosts, .sysalloc 0x3000 6,
    .sysalloc 0x4000 10, .disable allHosts, .sysfree 0x2000]

/-- Two streams enable an address and one of them is closed. -/
theorem shared_balanced :
    ∃ w, run step start shared = some w ∧ w.trace = sharedTrace ∧ Balanced w := by
  have htrace : (run step start shared).map World.trace = some sharedTrace := by decide +kernel
  obtain ⟨w, hrun, htrace⟩ := Option.map_eq_some_iff.mp htrace
  refine ⟨w, hrun, htrace, (multicast_balanced_iff hrun).mpr (guarded_of_forall ?_ _)⟩
  simp [shared, NotDisabling]

def disabled : List Act :=
  [.openStream 0, .enableMulti 0 allHosts 0x1000 0x2000, .disableMulti 0 allHosts]

def disabledTrace : List Event :=
  [.enable allHosts, .sysalloc 0x1000 6, .sysalloc 0x2000 10, .sysfree 0x2000, .sysfree 0x2004,
    .disable allHosts]

/-- The address in the node is freed, four bytes into a block that is gone. -/
theorem disabled_unbalanced :
    ∃ w, run step start disabled = some w ∧ w.trace = disabledTrace ∧ ¬Balanced w := by
  have htrace : (run step start disabled).map World.trace = some disabledTrace := by decide +kernel
  obtain ⟨w, hrun, htrace⟩ := Option.map_eq_some_iff.mp htrace
  refine ⟨w, hrun, htrace, fun h => ?_⟩
  have hfrees := h.frees
  rw [htrace] at hfrees
  obtain ⟨size, hsize⟩ := hfrees (disabledTrace.take 4) 0x2004 (by decide)
  rw [show owned (disabledTrace.take 4) = [(0x1000, 6)] by decide +kernel] at hsize
  simp at hsize

end SheepShear.Ether.Multicast
