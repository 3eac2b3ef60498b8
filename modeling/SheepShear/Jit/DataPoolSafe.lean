import SheepShear.Jit.DataPool

/-!
# The data of the pool stays

The offset of the newest chunk is a multiple of 16 that does not pass the end of
the chunk, and neither data nor headers are written again. The test for free space
is right as long as its sum does not wrap; the first one that wraps puts data past
the end of its chunk.
-/

namespace SheepShear.Jit.DataPool

open HostWords

-- ---------------------------------------------------------------------------
-- Sizes
-- ---------------------------------------------------------------------------

/-- A size that is allowed, with what is rounded from it. -/
def Allowed (h : Host) (size : Word) : Prop :=
  sizeofChunk.toNat + size.toNat + align.toNat + 2 ^ h.pageShift ≤ 2 ^ 32

theorem sixteen_dvd_page (h : Host) : 16 ∣ 2 ^ h.pageShift :=
  pow_dvd_pow 2 (le_trans (by decide : 4 ≤ 12) h.pageShift_ge)

theorem toAlloc_spec {h : Host} {size : Word} (hsize : Allowed h size) :
    size.toNat + 32 ≤ (toAlloc h size).toNat ∧ (toAlloc h size).toNat < 2 ^ 32 ∧
      2 ^ h.pageShift ∣ (toAlloc h size).toNat := by
  have hsum : (sizeofChunk + size + align).toNat = size.toNat + 32 := by
    have hallowed : 16 + size.toNat + 16 + 2 ^ h.pageShift ≤ 2 ^ 32 := hsize
    have hpos := Nat.two_pow_pos h.pageShift
    rw [BitVec.toNat_add, BitVec.toNat_add]
    show ((16 + size.toNat) % 2 ^ 32 + 16) % 2 ^ 32 = _
    omega
  have hround : (toAlloc h size).toNat =
      (size.toNat + 32 + (2 ^ h.pageShift - 1)) / 2 ^ h.pageShift * 2 ^ h.pageShift := by
    rw [← hsum]
    refine toNat_roundUp h.pageShift_lt ?_
    have hallowed : 16 + size.toNat + 16 + 2 ^ h.pageShift ≤ 2 ^ 32 := hsize
    omega
  rw [hround]
  have hallowed : 16 + size.toNat + 16 + 2 ^ h.pageShift ≤ 2 ^ 32 := hsize
  have hpos := Nat.two_pow_pos h.pageShift
  have hmod := Nat.mod_add_div' (size.toNat + 32 + (2 ^ h.pageShift - 1)) (2 ^ h.pageShift)
  have hlt := Nat.mod_lt (size.toNat + 32 + (2 ^ h.pageShift - 1)) hpos
  refine ⟨by omega, by omega, Dvd.intro_left _ rfl⟩

theorem toNat_roundUp_align {size : Word} (hsize : size.toNat + 16 ≤ 2 ^ 32) :
    (roundUp align size).toNat = (size.toNat + 15) / 16 * 16 :=
  @toNat_roundUp 4 (by decide) size hsize

-- ---------------------------------------------------------------------------
-- Headers
-- ---------------------------------------------------------------------------

/-- The fields of a header that stay as they are written first. -/
def SameHeader (m m' : HostMemory) (p : Nat) : Prop :=
  chunkSize m' p = chunkSize m p ∧ chunkNext m' p = chunkNext m p

/-- A header outside of what changes. -/
theorem sameHeader_of_sameOutside {m m' : HostMemory} {a n p : Nat} (h : SameOutside m m' a n)
    (hapart : p + 16 ≤ a ∨ a + n ≤ p) :
    SameHeader m m' p ∧ chunkOffs m' p = chunkOffs m p := by
  have hsize : readLE m' p 4 = readLE m p 4 := h.readLE_eq (by omega)
  have hoffs : readLE m' (p + 4) 4 = readLE m (p + 4) 4 := h.readLE_eq (by omega)
  have hnext : readLE m' (p + 8) 8 = readLE m (p + 8) 8 := h.readLE_eq (by omega)
  exact ⟨⟨by rw [chunkSize, chunkSize, hsize], hnext⟩, by rw [chunkOffs, chunkOffs, hoffs]⟩

/-- A field that is stored is read back. -/
theorem readLE_word (m : HostMemory) (p : Nat) (v : Word) :
    BitVec.ofNat 32 (readLE (writeLE m p v.toNat 4) p 4) = v := by
  rw [readLE_writeLE, Nat.mod_eq_of_lt (show v.toNat < 256 ^ 4 from v.isLt), BitVec.ofNat_toNat,
    BitVec.setWidth_eq]

/-- The list of chunks from an address on. -/
def Linked (m : HostMemory) : Nat → List Region → Prop
  | p, [] => p = 0
  | p, r :: rs => p ≠ 0 ∧ p = r.base ∧ (chunkSize m p).toNat = r.size ∧ Linked m (chunkNext m p) rs

theorem Linked.congr {m m' : HostMemory} {p : Nat} {rs : List Region} (h : Linked m p rs)
    (hsame : ∀ r ∈ rs, SameHeader m m' r.base) : Linked m' p rs := by
  induction rs generalizing p with
  | nil => exact h
  | cons r rs ih =>
    obtain ⟨hne, rfl, hsize, hrest⟩ := h
    obtain ⟨hs, hn⟩ := hsame r (List.mem_cons_self ..)
    refine ⟨hne, rfl, hs ▸ hsize, ?_⟩
    rw [hn]
    exact ih hrest fun r' hr' => hsame r' (List.mem_cons_of_mem _ hr')

theorem release_succ {m : HostMemory} {p : Nat} (hp : p ≠ 0) (fuel : Nat) :
    release m (fuel + 1) p =
      (release m fuel (chunkNext m p)).map (⟨p, (chunkSize m p).toNat⟩ :: ·) := by
  cases p with
  | zero => exact absurd rfl hp
  | succ p => rfl

/-- The destructor releases what is linked. -/
theorem release_of_linked {m : HostMemory} {p : Nat} {rs : List Region} (h : Linked m p rs) :
    release m rs.length p = some rs := by
  induction rs generalizing p with
  | nil =>
    obtain rfl : p = 0 := h
    rfl
  | cons r rs ih =>
    obtain ⟨hne, rfl, hsize, hrest⟩ := h
    rw [List.length_cons, release_succ hne, ih hrest, Option.map_some, hsize]

-- ---------------------------------------------------------------------------
-- The invariant
-- ---------------------------------------------------------------------------

structure Inv (s : Pool) : Prop where
  pointer : s.data < 2 ^ 64
  linked : Linked s.mem s.data s.regions
  sound : ∀ r ∈ s.regions, 16 ∣ r.base ∧ 16 ∣ r.size ∧ 32 ≤ r.size ∧ r.size < 2 ^ 32
  apart : s.regions.Pairwise Region.Apart
  offs : s.data ≠ 0 → 16 ≤ (chunkOffs s.mem s.data).toNat ∧ 16 ∣ (chunkOffs s.mem s.data).toNat ∧
    (chunkOffs s.mem s.data).toNat ≤ (chunkSize s.mem s.data).toNat
  inside : ∀ p ∈ s.pieces, p.chunk ∈ s.regions ∧ 16 ∣ p.ptr ∧ p.chunk.base + 16 ≤ p.ptr ∧
    p.ptr + p.size ≤ p.chunk.base + p.chunk.size ∧
    (p.chunk.base = s.data → p.ptr + p.size ≤ s.data + (chunkOffs s.mem s.data).toNat)
  disjoint : s.pieces.Pairwise fun p q => p.region.Apart q.region
  kept : ∀ p ∈ s.pieces, ∀ i < p.size, s.mem (p.ptr + i) = p.block i

theorem inv_initial (m : HostMemory) : Inv (initial m) where
  pointer := by show 0 < 2 ^ 64; decide
  linked := rfl
  sound := by rintro r ⟨⟩
  apart := .nil
  offs := fun h => absurd rfl h
  inside := by rintro p ⟨⟩
  disjoint := .nil
  kept := by rintro p ⟨⟩

variable {h : Host} {s s' : Pool} {call : Call}

/-- The newest chunk. -/
theorem Inv.newest (hinv : Inv s) (hdata : s.data ≠ 0) :
    ∃ rs, s.regions = ⟨s.data, (chunkSize s.mem s.data).toNat⟩ :: rs := by
  have hlinked := hinv.linked
  cases hregions : s.regions with
  | nil =>
    rw [hregions] at hlinked
    exact absurd hlinked hdata
  | cons r rs =>
    rw [hregions] at hlinked
    obtain ⟨-, hbase, hsize, -⟩ := hlinked
    exact ⟨rs, by rw [hbase] at hsize ⊢; rw [hsize]⟩

/-- The memory outside of the new chunk is as it was. -/
theorem sameOutside_newChunk (s : Pool) (call : Call) :
    SameOutside s.mem (newChunk h s call).mem call.acquired 16 := by
  have hsize := (sameOutside_writeLE s.mem call.acquired (toAlloc h call.size).toNat 4).mono
    (le_refl call.acquired) (by omega : call.acquired + 4 ≤ call.acquired + 16)
  have hoffs := (sameOutside_writeLE (setSize s.mem call.acquired (toAlloc h call.size))
    (call.acquired + 4) (roundUp align sizeofChunk).toNat 4).mono (by omega : call.acquired ≤ call.acquired + 4)
    (by omega : call.acquired + 4 + 4 ≤ call.acquired + 16)
  have hnext := (sameOutside_writeLE (setOffs (setSize s.mem call.acquired (toAlloc h call.size))
    call.acquired (roundUp align sizeofChunk)) (call.acquired + 8) s.data 8).mono
    (by omega : call.acquired ≤ call.acquired + 8) (by omega : call.acquired + 8 + 8 ≤ call.acquired + 16)
  exact (hsize.trans hoffs).trans hnext

theorem header_newChunk (s : Pool) (call : Call) (hdata : s.data < 2 ^ 64) :
    chunkSize (newChunk h s call).mem call.acquired = toAlloc h call.size ∧
    chunkOffs (newChunk h s call).mem call.acquired = 16 ∧
    chunkNext (newChunk h s call).mem call.acquired = s.data := by
  set m₁ := setSize s.mem call.acquired (toAlloc h call.size)
  set m₂ := setOffs m₁ call.acquired (roundUp align sizeofChunk)
  have hoffs : SameOutside m₁ m₂ (call.acquired + 4) 4 := sameOutside_writeLE _ _ _ _
  have hnext : SameOutside m₂ (newChunk h s call).mem (call.acquired + 8) 8 :=
    sameOutside_writeLE _ _ _ _
  refine ⟨?_, ?_, ?_⟩
  · rw [chunkSize, hnext.readLE_eq (by omega), hoffs.readLE_eq (by omega)]
    exact readLE_word _ _ _
  · rw [chunkOffs, hnext.readLE_eq (by omega)]
    exact readLE_word _ _ _
  · exact (readLE_writeLE _ _ _ _).trans (Nat.mod_eq_of_lt hdata)

/-- A new chunk has no data in it. -/
theorem inv_newChunk (hinv : Inv s) (hallowed : Allowed h call.size) (hnonzero : call.acquired ≠ 0)
    (hpage : 2 ^ h.pageShift ∣ call.acquired)
    (hspace : call.acquired + (toAlloc h call.size).toNat ≤ 2 ^ 64)
    (hfresh : ∀ r ∈ s.regions, r.Apart ⟨call.acquired, (toAlloc h call.size).toNat⟩) :
    Inv (newChunk h s call) := by
  obtain ⟨hroom, hlt, hdvd⟩ := @toAlloc_spec h _ hallowed
  obtain ⟨hsize, hoffs, hnext⟩ := @header_newChunk h s call hinv.pointer
  have houtside := @sameOutside_newChunk h s call
  -- An old chunk is apart from the new one, so it keeps its header and its data.
  have hold : ∀ r ∈ s.regions, r.base + r.size ≤ call.acquired ∨
      call.acquired + 16 ≤ r.base := by
    intro r hr
    rcases hfresh r hr with hbefore | hbehind
    · exact .inl hbefore
    · exact .inr (by simp only at hbehind; omega)
  have hbase : ∀ r ∈ s.regions, r.base ≠ call.acquired := by
    intro r hr heq
    have hpos := (hinv.sound r hr).2.2.1
    rcases hold r hr with hbefore | hbehind <;> omega
  refine ⟨by show call.acquired < 2 ^ 64; omega, ?_, ?_, ?_, fun _ => ?_, ?_, hinv.disjoint, ?_⟩
  · refine ⟨hnonzero, rfl, congrArg BitVec.toNat hsize, ?_⟩
    show Linked _ (chunkNext (newChunk h s call).mem call.acquired) s.regions
    rw [hnext]
    refine hinv.linked.congr fun r hr => (sameHeader_of_sameOutside houtside ?_).1
    have hpos := (hinv.sound r hr).2.2.1
    rcases hold r hr with hbefore | hbehind
    · exact .inl (by omega)
    · exact .inr hbehind
  · rintro r (_ | ⟨_, hr⟩)
    · exact ⟨(sixteen_dvd_page h).trans hpage, (sixteen_dvd_page h).trans hdvd, by simp only; omega, hlt⟩
    · exact hinv.sound r hr
  · exact List.pairwise_cons.mpr ⟨fun r hr => (hfresh r hr).symm, hinv.apart⟩
  · rw [show (newChunk h s call).data = call.acquired from rfl, hoffs, hsize]
    exact ⟨by decide, by decide, by show 16 ≤ _; omega⟩
  · intro p hp
    obtain ⟨hchunk, halign, hlow, hhigh, -⟩ := hinv.inside p hp
    exact ⟨List.mem_cons_of_mem _ hchunk, halign, hlow, hhigh,
      fun heq => absurd heq (hbase p.chunk hchunk)⟩
  · intro p hp i hi
    obtain ⟨hchunk, -, hlow, hhigh, -⟩ := hinv.inside p hp
    rw [houtside _ ?_]
    · exact hinv.kept p hp i hi
    · rcases hold p.chunk hchunk with hbefore | hbehind <;> omega

/-- Data that fits in the newest chunk. -/
theorem inv_place (hinv : Inv s) (hdata : s.data ≠ 0) (hsize : call.size.toNat + 16 ≤ 2 ^ 32)
    (hroom : (chunkOffs s.mem s.data).toNat + call.size.toNat ≤ (chunkSize s.mem s.data).toNat) :
    Inv (place s call) := by
  obtain ⟨rs, hregions⟩ := hinv.newest hdata
  obtain ⟨hlow, hdvd, hhigh⟩ := hinv.offs hdata
  set ptr := s.data + (chunkOffs s.mem s.data).toNat with hptr
  set m := copyIn s.mem ptr call.block call.size.toNat with hm
  have hnewest : (⟨s.data, (chunkSize s.mem s.data).toNat⟩ : Region) ∈ s.regions := by simp [hregions]
  obtain ⟨hbase16, hsize16, hmin, hlt⟩ := hinv.sound _ hnewest
  simp only at hbase16 hsize16 hmin hlt
  have hcopy : SameOutside s.mem m ptr call.size.toNat := sameOutside_copyIn _ _ _ _
  have hheader := sameHeader_of_sameOutside hcopy (.inl (by omega : s.data + 16 ≤ ptr))
  have hround := toNat_roundUp_align hsize
  -- The new offset does not wrap: rounded up, it is still in the chunk.
  have hnewoffs : (chunkOffs m s.data + roundUp align call.size).toNat =
      (chunkOffs s.mem s.data).toNat + (call.size.toNat + 15) / 16 * 16 := by
    rw [BitVec.toNat_add, hheader.2, hround, Nat.mod_eq_of_lt (by omega)]
  have hset : SameOutside m (place s call).mem (s.data + 4) 4 := sameOutside_writeLE _ _ _ _
  have hoffs : chunkOffs (place s call).mem s.data = chunkOffs m s.data + roundUp align call.size :=
    readLE_word _ _ _
  have hsame : SameHeader s.mem (place s call).mem s.data := by
    obtain ⟨hs, hn⟩ := hheader.1
    refine ⟨Eq.trans ?_ hs, Eq.trans (hset.readLE_eq (by omega)) hn⟩
    rw [chunkSize, chunkSize, hset.readLE_eq (by omega)]
  -- All that changes is in the newest chunk, from its offset on and in its header.
  have houtside (x : Nat) (hx : ¬(ptr ≤ x ∧ x < ptr + call.size.toNat))
      (hx' : ¬(s.data + 4 ≤ x ∧ x < s.data + 8)) : (place s call).mem x = s.mem x :=
    (hset x (by omega)).trans (hcopy x hx)
  have hother : ∀ r ∈ rs, r.base + r.size ≤ s.data ∨ s.data + (chunkSize s.mem s.data).toNat ≤ r.base := by
    intro r hr
    have hapart := hinv.apart
    rw [hregions] at hapart
    exact ((List.pairwise_cons.mp hapart).1 r hr).symm
  have hend : ∀ p ∈ s.pieces, p.ptr + p.size ≤ ptr ∧ s.data + 16 ≤ p.ptr ∨
      p.ptr + p.size ≤ s.data ∨ s.data + (chunkSize s.mem s.data).toNat ≤ p.ptr := by
    intro p hp
    obtain ⟨hchunk, -, hplow, hphigh, hlast⟩ := hinv.inside p hp
    rw [hregions] at hchunk
    rcases List.mem_cons.mp hchunk with heq | hrs
    · rw [heq] at hplow hlast
      exact .inl ⟨hlast rfl, hplow⟩
    · rcases hother _ hrs with hbefore | hbehind
      · exact .inr (.inl (by omega))
      · exact .inr (.inr (by omega))
  refine ⟨hinv.pointer, ?_, hinv.sound, hinv.apart, fun _ => ?_, ?_, ?_, ?_⟩
  · refine hinv.linked.congr fun r hr => ?_
    rw [hregions] at hr
    rcases List.mem_cons.mp hr with rfl | hrs
    · exact hsame
    · have hrmin := (hinv.sound r (by rw [hregions]; exact List.mem_cons_of_mem _ hrs)).2.2.1
      have hapart : r.base + 16 ≤ s.data ∨ s.data + (chunkSize s.mem s.data).toNat ≤ r.base :=
        (hother r hrs).imp (fun h => by omega) id
      obtain ⟨hs, hn⟩ := (sameHeader_of_sameOutside hcopy (by omega : r.base + 16 ≤ ptr ∨ _)).1
      obtain ⟨hs', hn'⟩ := (sameHeader_of_sameOutside hset (by omega : r.base + 16 ≤ s.data + 4 ∨ _)).1
      exact ⟨hs'.trans hs, hn'.trans hn⟩
  · show 16 ≤ (chunkOffs (place s call).mem s.data).toNat ∧
      16 ∣ (chunkOffs (place s call).mem s.data).toNat ∧
      (chunkOffs (place s call).mem s.data).toNat ≤ (chunkSize (place s call).mem s.data).toNat
    rw [hoffs, hnewoffs, hsame.1]
    omega
  · have hlast : ptr + call.size.toNat ≤ s.data + (chunkOffs (place s call).mem s.data).toNat := by
      rw [hoffs, hnewoffs]
      omega
    rintro p (_ | ⟨_, hp⟩)
    · exact ⟨hnewest, by show 16 ∣ ptr; omega, by show s.data + 16 ≤ ptr; omega,
        by show ptr + call.size.toNat ≤ s.data + (chunkSize s.mem s.data).toNat; omega, fun _ => hlast⟩
    · obtain ⟨hchunk, halign, hplow, hphigh, hplast⟩ := hinv.inside p hp
      refine ⟨hchunk, halign, hplow, hphigh, fun heq => le_trans (hplast heq) ?_⟩
      show _ ≤ s.data + (chunkOffs (place s call).mem s.data).toNat
      omega
  · refine List.pairwise_cons.mpr ⟨fun p hp => ?_, hinv.disjoint⟩
    show ptr + call.size.toNat ≤ p.ptr ∨ p.ptr + p.size ≤ ptr
    rcases hend p hp with hbefore | hbefore | hbehind
    · exact .inr hbefore.1
    · exact .inr (by omega)
    · exact .inl (by omega)
  · rintro p (_ | ⟨_, hp⟩) i hi
    · have hi : i < call.size.toNat := hi
      show (place s call).mem (ptr + i) = call.block i
      rw [hset _ (by omega)]
      exact copyIn_at _ _ _ hi
    · rw [houtside _ ?_ ?_]
      · exact hinv.kept p hp i hi
      · rcases hend p hp with hbefore | hbefore | hbehind <;> omega
      · rcases hend p hp with hbefore | hbefore | hbehind <;> omega

-- ---------------------------------------------------------------------------
-- Runs
-- ---------------------------------------------------------------------------

/-- The sum of the test for free space does not wrap. -/
def NoWrap (s : Pool) (call : Call) : Prop :=
  s.data ≠ 0 → (chunkOffs s.mem s.data).toNat + call.size.toNat < 2 ^ 32

theorem toNat_offs_add (hwrap : (chunkOffs s.mem s.data).toNat + call.size.toNat < 2 ^ 32) :
    (chunkOffs s.mem s.data + call.size).toNat = (chunkOffs s.mem s.data).toNat + call.size.toNat := by
  rw [BitVec.toNat_add, Nat.mod_eq_of_lt hwrap]

theorem inv_step (hinv : Inv s) (hwrap : NoWrap s call) (hstep : step h s call = some s') : Inv s' := by
  rw [step] at hstep
  split_ifs at hstep with hserved
  obtain rfl := Option.some.inj hstep
  obtain ⟨hallowed, hacquired⟩ := hserved
  have hsize : call.size.toNat + 16 ≤ 2 ^ 32 := by
    have hsum : 16 + call.size.toNat + 16 + 2 ^ h.pageShift ≤ 2 ^ 32 := hallowed
    have hpos := Nat.two_pow_pos h.pageShift
    omega
  rw [copyData]
  split_ifs with hfits
  · obtain ⟨hdata, hless⟩ := hfits
    have hfree := BitVec.lt_def.mp hless
    rw [toNat_offs_add (hwrap hdata)] at hfree
    exact inv_place hinv hdata hsize (le_of_lt hfree)
  · obtain ⟨hnonzero, hpage, hspace, hfresh⟩ := hacquired hfits
    obtain ⟨hnewsize, hnewoffs, -⟩ := @header_newChunk h s call hinv.pointer
    refine inv_place (inv_newChunk hinv hallowed hnonzero hpage hspace hfresh) hnonzero hsize ?_
    rw [show (newChunk h s call).data = call.acquired from rfl, hnewsize, hnewoffs]
    have hroom := (@toAlloc_spec h _ hallowed).1
    show 16 + _ ≤ _
    omega

/-- All data is where the claims of the callers are met: see the fields. -/
structure Good (s : Pool) : Prop where
  aligned : ∀ p ∈ s.pieces, 16 ∣ p.ptr
  disjoint : s.pieces.Pairwise fun p q => p.region.Apart q.region
  inside : ∀ p ∈ s.pieces, p.chunk ∈ s.regions ∧ p.chunk.base + sizeofChunk.toNat ≤ p.ptr ∧
    p.ptr + p.size ≤ p.chunk.base + p.chunk.size
  kept : ∀ p ∈ s.pieces, ∀ i < p.size, s.mem (p.ptr + i) = p.block i
  released : ∃ fuel, release s.mem fuel s.data = some s.regions
  once : s.regions.Nodup

theorem Inv.good (hinv : Inv s) : Good s where
  aligned := fun p hp => (hinv.inside p hp).2.1
  disjoint := hinv.disjoint
  inside := fun p hp =>
    ⟨(hinv.inside p hp).1, (hinv.inside p hp).2.2.1, (hinv.inside p hp).2.2.2.1⟩
  kept := hinv.kept
  released := ⟨_, release_of_linked hinv.linked⟩
  once := by
    refine List.Pairwise.imp_of_mem (fun hr _ hapart heq => ?_) hinv.apart
    have hmin := (hinv.sound _ hr).2.2.1
    subst heq
    rcases hapart with h | h <;> omega

/-- The part of it that no later call mends. -/
def Inside (s : Pool) : Prop := ∀ p ∈ s.pieces, p.ptr + p.size ≤ p.chunk.base + p.chunk.size

theorem pieces_step (hstep : step h s call = some s') : ∃ p, s'.pieces = p :: s.pieces := by
  rw [step] at hstep
  split_ifs at hstep with hserved
  obtain rfl := Option.some.inj hstep
  rw [copyData]
  split_ifs
  · exact ⟨_, rfl⟩
  · exact ⟨_, rfl⟩

/-- A test that wraps lets data through that ends behind its chunk. -/
theorem not_inside_step (hinv : Inv s) (hwrap : ¬NoWrap s call) (hstep : step h s call = some s') :
    ¬Inside s' := by
  obtain ⟨hdata, hwrap⟩ := Classical.not_imp.mp hwrap
  obtain ⟨-, -, hhigh⟩ := hinv.offs hdata
  have hsizelt := (chunkSize s.mem s.data).isLt
  have hcall := call.size.isLt
  have hfits : Fits s call.size := by
    refine ⟨hdata, BitVec.lt_def.mpr ?_⟩
    rw [BitVec.toNat_add]
    omega
  rw [step] at hstep
  split_ifs at hstep with hserved
  obtain rfl := Option.some.inj hstep
  intro hinside
  rw [copyData, if_pos hfits] at hinside
  have hpiece := hinside _ (List.mem_cons_self ..)
  simp only at hpiece
  omega

/-- In every run, all data stays if and only if no test for free space wraps. -/
theorem good_iff (h : Host) (m : HostMemory) {calls : List Call} {s : Pool}
    (hrun : Steps.run (step h) (initial m) calls = some s) :
    Good s ↔ Steps.Guarded (step h) NoWrap (initial m) calls := by
  have hinside : Inside s ↔ Steps.Guarded (step h) NoWrap (initial m) calls := by
    refine Steps.good_iff_guarded (fun hinv p hp => (hinv.inside p hp).2.2.2.1) inv_step not_inside_step
      (fun hstep hgood p hp => ?_) (inv_initial m) hrun
    obtain ⟨q, hpieces⟩ := pieces_step hstep
    exact hgood p (hpieces ▸ List.mem_cons_of_mem _ hp)
  refine ⟨fun hgood => hinside.mp fun p hp => (hgood.inside p hp).2.2, fun hguarded => ?_⟩
  have hreach := Steps.Reaches.start.run_append hrun hguarded
  exact (hreach.invariant (inv_initial m) inv_step).good

theorem step_of_served (hserved : Served h s call) : step h s call = some (copyData h s call) :=
  if_pos hserved

theorem run_two {a b : Call} (ha : Served h s a) (hb : Served h (copyData h s a) b) :
    Steps.run (step h) s [a, b] = some (copyData h (copyData h s a) b) := by
  rw [Steps.run, step_of_served ha, Option.bind_some, Steps.run, step_of_served hb, Option.bind_some,
    Steps.run]

def linuxHost : Host := ⟨12, by decide, by decide⟩

/-- A mask of 16 bytes, as it is copied for the vector code. -/
def maskCall : Call := ⟨fun i => .ofNat 8 i, 16, 0x10000⟩

theorem good_masks : Good (copyData linuxHost (copyData linuxHost (initial fun _ => 0) maskCall) maskCall) := by
  have hfirst : Served linuxHost (initial fun _ => 0) maskCall := by decide +kernel
  have hsecond : Served linuxHost (copyData linuxHost (initial fun _ => 0) maskCall) maskCall := by
    decide +kernel
  refine (good_iff linuxHost (fun _ => 0) (run_two hfirst hsecond)).mpr ⟨fun hne => absurd rfl hne, ?_⟩
  rw [step_of_served hfirst]
  refine ⟨fun _ => by decide +kernel, ?_⟩
  rw [step_of_served hsecond]
  trivial

/-- A block of 2 GB. -/
def hugeCall : Call := ⟨fun _ => 0, 0x80000000, 0x10000⟩

/-- The second of two such blocks begins where the first one ends, and goes 2 GB
past the end of the chunk. -/
theorem huge_not_good :
    Steps.run (step linuxHost) (initial fun _ => 0) [hugeCall, hugeCall] =
      some (copyData linuxHost (copyData linuxHost (initial fun _ => 0) hugeCall) hugeCall) ∧
    ¬Good (copyData linuxHost (copyData linuxHost (initial fun _ => 0) hugeCall) hugeCall) := by
  have hfirst : Served linuxHost (initial fun _ => 0) hugeCall := by decide +kernel
  have hsecond : Served linuxHost (copyData linuxHost (initial fun _ => 0) hugeCall) hugeCall := by
    decide +kernel
  have hinv := inv_step (inv_initial fun _ => 0) (fun hne => absurd rfl hne) (step_of_served hfirst)
  refine ⟨run_two hfirst hsecond, fun hgood => ?_⟩
  refine not_inside_step hinv ?_ (step_of_served hsecond) fun p hp => (hgood.inside p hp).2.2
  intro hwrap
  exact absurd (hwrap (by decide +kernel)) (by decide +kernel)

end SheepShear.Jit.DataPool
