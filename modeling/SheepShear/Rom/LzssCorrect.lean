import SheepShear.Rom.Lzss

/-!
# The decoder decodes the format

Each pass of the loop takes one item of the stream, after the flags when a run
starts, and appends what it stands for. The loop is left when the stream ends,
with every byte of it read.
-/

namespace SheepShear.Rom

open Window

-- ---------------------------------------------------------------------------
-- The run mask
-- ---------------------------------------------------------------------------

/-- The mask with these flags left, under the eight bits that count them. -/
def maskOf : List Bool → Nat
  | [] => 0xff
  | flag :: flags => flag.toNat + 2 * maskOf flags

theorem maskOf_runFlags (c : Byte) : c.toNat ||| 0xff00 = maskOf (runFlags c) := by
  revert c
  decide +kernel

theorem maskOf_and_one (flag : Bool) (flags : List Bool) :
    maskOf (flag :: flags) &&& 1 = flag.toNat := by
  rw [Nat.and_one_is_mod, maskOf]
  cases flag <;> simp

theorem maskOf_shift (flag : Bool) (flags : List Bool) :
    maskOf (flag :: flags) >>> 1 = maskOf flags := by
  rw [Nat.shiftRight_one, maskOf]
  cases flag
  · simp
  · simp
    omega

theorem le_maskOf (flags : List Bool) : 0xff ≤ maskOf flags := by
  induction flags with
  | nil => exact Nat.le_refl _
  | cons flag flags ih =>
    rw [maskOf]
    omega

theorem copyIndex (lo hi : Byte) :
    lo.toNat ||| ((hi.toNat <<< 4) &&& 0xf00) = lo.toNat + hi.toNat / 16 * 256 := by
  have hhi : (hi.toNat <<< 4) &&& 0xf00 = 2 ^ 8 * (hi.toNat / 16) := by
    revert hi
    decide +kernel
  rw [hhi, Nat.or_comm, ← Nat.two_pow_add_eq_or_of_lt lo.isLt]
  omega

-- ---------------------------------------------------------------------------
-- The output
-- ---------------------------------------------------------------------------

variable {s s₁ s' : LzssState} {t : LzssToken}

/-- The array is the ring of the last bytes that were written. -/
structure Written (s : LzssState) : Prop where
  holds : Holds 0x1000 0xfee s.dict s.dest
  dictIdx : s.dictIdx = (0xfee + s.dest.length) % 0x1000

theorem Written.put (h : Written s) (c : Byte) : Written (s.put c) := by
  constructor
  · have happend := h.holds.append c
    rwa [← h.dictIdx] at happend
  · have hmask := Nat.and_two_pow_sub_one_eq_mod (s.dictIdx + 1) 12
    simp only [LzssState.put, List.length_append, List.length_singleton]
    rw [hmask, h.dictIdx, Nat.mod_add_mod]
    rfl

theorem copy_length (idx cnt : Nat) (s : LzssState) :
    (s.copy idx cnt).dest.length = s.dest.length + cnt := by
  induction cnt generalizing s idx with
  | zero => rfl
  | succ cnt ih =>
    rw [LzssState.copy, ih, LzssState.put, List.length_append, List.length_singleton]
    omega

theorem Written.copy (h : Written s) {idx cnt : Nat} (hidx : idx < 0x1000) {out : List Byte}
    (hcopy : copyBack (lagOf 0x1000 (0xfee + s.dest.length) idx) cnt s.dest = some out) :
    (s.copy idx cnt).dest = out ∧ Written (s.copy idx cnt) := by
  induction cnt generalizing s idx with
  | zero => exact ⟨Option.some.inj hcopy, h⟩
  | succ cnt ih =>
    rw [copyBack] at hcopy
    split at hcopy
    · next c hc =>
      have hread := h.holds.read hidx hc
      have hnext : (idx + 1) &&& 0xfff = (idx + 1) % 0x1000 := Nat.and_two_pow_sub_one_eq_mod _ 12
      rw [LzssState.copy, hread, hnext]
      refine ih (h.put c) (Nat.mod_lt _ (by decide)) ?_
      -- the lag does not change
      rw [LzssState.put, List.length_append, List.length_singleton, ← Nat.add_assoc,
        lagOf_succ hidx]
      exact hcopy
    · cases hcopy

/-- How many bytes an item stands for. -/
def LzssToken.length : LzssToken → Nat
  | .literal _ => 1
  | .copy _ cnt => cnt

/-- The state after an item, which appends what it stands for. -/
structure Emits (t : LzssToken) (s s' : LzssState) : Prop where
  length : s'.dest.length = s.dest.length + t.length
  dest : Written s → ∀ out, t.decode s.dest = some out → s'.dest = out ∧ Written s'

theorem emits_literal (s : LzssState) (c : Byte) : Emits (.literal c) s (s.put c) := by
  refine ⟨by simp [LzssState.put, LzssToken.length], fun h out hout => ?_⟩
  exact ⟨Option.some.inj hout, h.put c⟩

theorem emits_copy (s : LzssState) {idx : Nat} (hidx : idx < 0x1000) (cnt : Nat) :
    Emits (.copy idx cnt) s (s.copy idx cnt) :=
  ⟨copy_length idx cnt s, fun h _ hout => h.copy hidx hout⟩

/-- No output between two states. -/
structure Keeps (s s' : LzssState) : Prop where
  dest : s'.dest = s.dest
  written : Written s → Written s'

theorem Keeps.trans (h : Keeps s s₁) (h' : Keeps s₁ s') : Keeps s s' :=
  ⟨h'.dest.trans h.dest, h'.written ∘ h.written⟩

theorem Emits.after (he : Emits t s₁ s') (h : Keeps s s₁) : Emits t s s' := by
  refine ⟨by rw [he.length, h.dest], fun hw out hout => ?_⟩
  exact he.dest (h.written hw) out (by rwa [h.dest])

-- ---------------------------------------------------------------------------
-- The stream
-- ---------------------------------------------------------------------------

/-- What is left of the stream, and of the flags of the run. -/
structure Reading (mem : Nat → Byte) (s : LzssState) (flags : List Bool) (src : List Byte) : Prop where
  mem_eq : ∀ i c, src[i]? = some c → mem (s.src + i) = c
  size : s.size.toNat = src.length
  mask : s.runMask = maskOf flags ∨ flags = [] ∧ s.runMask < 0x100

/-- The bytes up to the end of the stream have been read and none has been written. -/
def Ended (s s' : LzssState) (src : List Byte) : Prop :=
  s'.src = s.src + src.length ∧ s'.dest = s.dest

variable {mem : Nat → Byte} {flag : Bool} {flags : List Bool} {src : List Byte}

theorem Reading.fetch_end (h : Reading mem s flags []) :
    ∃ s', s.fetch mem = .error s' ∧ Ended s s' [] := by
  have hsize := h.size
  rw [List.length_nil] at hsize
  rw [LzssState.fetch, if_pos (by dsimp only; omega)]
  exact ⟨_, rfl, rfl, rfl⟩

theorem Reading.fetch_byte {c : Byte} (h : Reading mem s flags (c :: src)) :
    ∃ s', s.fetch mem = .ok (c, s') ∧ Reading mem s' flags src ∧ s'.src = s.src + 1 ∧
      Keeps s s' := by
  have hsize := h.size
  have hc : mem s.src = c := h.mem_eq 0 c rfl
  rw [List.length_cons] at hsize
  rw [LzssState.fetch, if_neg (by dsimp only; omega), hc]
  refine ⟨_, rfl, ⟨?_, ?_, h.mask⟩, rfl, rfl, fun hw => ⟨hw.holds, hw.dictIdx⟩⟩
  · intro i x hx
    have hmem := h.mem_eq (i + 1) x (by rwa [List.getElem?_cons_succ])
    rwa [show s.src + 1 + i = s.src + (i + 1) by omega]
  · dsimp only
    omega

theorem Reading.put (h : Reading mem s flags src) (c : Byte) : Reading mem (s.put c) flags src :=
  ⟨h.mem_eq, h.size, h.mask⟩

theorem Reading.copy (h : Reading mem s flags src) (idx cnt : Nat) :
    Reading mem (s.copy idx cnt) flags src ∧ (s.copy idx cnt).src = s.src := by
  induction cnt generalizing s idx with
  | zero => exact ⟨h, rfl⟩
  | succ cnt ih => exact ih (h.put _) _

theorem Reading.nextFlag (h : Reading mem s (flag :: flags) src) :
    s.runMask &&& 1 = flag.toNat ∧ ∃ s', { s with runMask := s.runMask >>> 1 } = s' ∧
      Reading mem s' flags src ∧ s'.src = s.src ∧ Keeps s s' := by
  rcases h.mask with hmask | ⟨hnil, -⟩
  · refine ⟨by rw [hmask, maskOf_and_one], _, rfl, ⟨h.mem_eq, h.size, .inl ?_⟩, rfl, rfl,
      fun hw => ⟨hw.holds, hw.dictIdx⟩⟩
    dsimp only
    rw [hmask, maskOf_shift]
  · cases hnil

-- ---------------------------------------------------------------------------
-- One pass
-- ---------------------------------------------------------------------------

theorem startRun_spec (h : Reading mem s flags src) :
    (flags = [] ∧ src = [] ∧ ∃ s', s.startRun mem = .error s' ∧ Ended s s' src) ∨
    ∃ s' flag flags' src', s.startRun mem = .ok s' ∧ Reading mem s' (flag :: flags') src' ∧
      s'.src + src'.length = s.src + src.length ∧ src'.length ≤ src.length ∧ Keeps s s' ∧
      lzssTokens flags src = lzssTokens (flag :: flags') src' := by
  cases flags with
  | nil =>
    have hmask : s.runMask < 0x100 := by
      rcases h.mask with hmask | ⟨-, hmask⟩
      · rw [hmask]
        decide
      · exact hmask
    have hrun : s.startRun mem = (s.fetch mem >>= fun r =>
        pure { r.2 with runMask := r.1.toNat ||| 0xff00 }) := by
      rw [LzssState.startRun, if_pos hmask]
    cases src with
    | nil =>
      obtain ⟨s', hfetch, hend⟩ := h.fetch_end
      rw [hfetch] at hrun
      exact .inl ⟨rfl, rfl, s', hrun, hend⟩
    | cons c src =>
      obtain ⟨s', hfetch, hread, hsrc, hkeeps⟩ := h.fetch_byte
      rw [hfetch] at hrun
      refine .inr ⟨_, _, _, src, hrun, ⟨hread.mem_eq, hread.size, .inl (maskOf_runFlags c)⟩, ?_,
        Nat.le_succ _, ⟨hkeeps.dest, fun hw => ?_⟩, ?_⟩
      · rw [List.length_cons]
        dsimp only
        omega
      · exact ⟨(hkeeps.written hw).holds, (hkeeps.written hw).dictIdx⟩
      · cases src <;> rfl
  | cons flag flags =>
    have hmask : ¬ s.runMask < 0x100 := by
      rcases h.mask with hmask | ⟨hnil, -⟩
      · have hle := le_maskOf flags
        rw [hmask, maskOf]
        omega
      · cases hnil
    rw [LzssState.startRun, if_neg hmask]
    exact .inr ⟨s, flag, flags, src, rfl, h, rfl, Nat.le_refl _, ⟨rfl, id⟩, rfl⟩

theorem decodeItem_spec (h : Reading mem s (flag :: flags) src) :
    (lzssTokens (flag :: flags) src = [] ∧ ∃ s', s.decodeItem mem = .error s' ∧ Ended s s' src) ∨
    ∃ t s' src', s.decodeItem mem = .ok s' ∧ Reading mem s' flags src' ∧
      s'.src + src'.length = s.src + src.length ∧ src'.length < src.length ∧
      lzssTokens (flag :: flags) src = t :: lzssTokens flags src' ∧ Emits t s s' := by
  obtain ⟨hbit, s₁, hs₁, hnext, hsrc₁, hkeeps₁⟩ := h.nextFlag
  cases flag with
  | true =>
    have hitem : s.decodeItem mem = (s₁.fetch mem >>= fun r => pure (r.2.put r.1)) := by
      simp only [LzssState.decodeItem, hbit, hs₁]
      rfl
    cases src with
    | nil =>
      obtain ⟨s', hfetch, hsrc, hdest⟩ := hnext.fetch_end
      rw [hfetch] at hitem
      exact .inl ⟨rfl, s', hitem, hsrc.trans hsrc₁, hdest.trans hkeeps₁.dest⟩
    | cons c src =>
      obtain ⟨s₂, hfetch, hread, hsrc₂, hkeeps₂⟩ := hnext.fetch_byte
      rw [hfetch] at hitem
      refine .inr ⟨.literal c, s₂.put c, src, hitem, hread.put c, ?_, Nat.lt_succ_self _, ?_,
        (emits_literal s₂ c).after (hkeeps₁.trans hkeeps₂)⟩
      · simp only [LzssState.put, List.length_cons]
        omega
      · cases src <;> rfl
  | false =>
    have hitem : s.decodeItem mem = (s₁.fetch mem >>= fun lo => lo.2.fetch mem >>= fun hi =>
        pure (hi.2.copy (lo.1.toNat ||| ((hi.1.toNat <<< 4) &&& 0xf00))
          ((hi.1.toNat &&& 0x0f) + 3))) := by
      simp only [LzssState.decodeItem, hbit, hs₁]
      rfl
    cases src with
    | nil =>
      obtain ⟨s', hfetch, hsrc, hdest⟩ := hnext.fetch_end
      rw [hfetch] at hitem
      exact .inl ⟨rfl, s', hitem, hsrc.trans hsrc₁, hdest.trans hkeeps₁.dest⟩
    | cons lo src =>
      obtain ⟨s₂, hlo, hread₂, hsrc₂, hkeeps₂⟩ := hnext.fetch_byte
      have hrest : s.decodeItem mem = (s₂.fetch mem >>= fun hi =>
          pure (hi.2.copy (lo.toNat ||| ((hi.1.toNat <<< 4) &&& 0xf00))
            ((hi.1.toNat &&& 0x0f) + 3))) := by
        rw [hitem, hlo]
        rfl
      cases src with
      | nil =>
        obtain ⟨s', hfetch, hsrc, hdest⟩ := hread₂.fetch_end
        rw [hfetch] at hrest
        refine .inl ⟨rfl, s', hrest, ?_, (hdest.trans hkeeps₂.dest).trans hkeeps₁.dest⟩
        rw [hsrc, hsrc₂, hsrc₁]
        rfl
      | cons hi src =>
        obtain ⟨s₃, hhi, hread₃, hsrc₃, hkeeps₃⟩ := hread₂.fetch_byte
        have hcnt : hi.toNat &&& 0x0f = hi.toNat % 16 := Nat.and_two_pow_sub_one_eq_mod _ 4
        have hidx : lo.toNat + hi.toNat / 16 * 256 < 0x1000 := by
          have hlolt := lo.isLt
          have hhilt := hi.isLt
          omega
        rw [hhi] at hrest
        replace hrest : s.decodeItem mem =
            .ok (s₃.copy (lo.toNat + hi.toNat / 16 * 256) (hi.toNat % 16 + 3)) := by
          rw [← copyIndex, ← hcnt]
          exact hrest
        obtain ⟨hcopy, hsrc⟩ := hread₃.copy (lo.toNat + hi.toNat / 16 * 256) (hi.toNat % 16 + 3)
        refine .inr ⟨.copy _ _, _, src, hrest, hcopy, ?_, by simp, rfl,
          (emits_copy s₃ hidx _).after ((hkeeps₁.trans hkeeps₂).trans hkeeps₃)⟩
        rw [hsrc, List.length_cons, List.length_cons]
        omega

-- ---------------------------------------------------------------------------
-- The loop
-- ---------------------------------------------------------------------------

/-- How many bytes a stream stands for. -/
def lzssLength (tokens : List LzssToken) : Nat := (tokens.map LzssToken.length).sum

theorem loop_spec {fuel : Nat} (h : Reading mem s flags src) (hfuel : src.length < fuel) :
    ∃ s', LzssState.loop mem fuel s = some s' ∧ s'.src = s.src + src.length ∧
      s'.dest.length = s.dest.length + lzssLength (lzssTokens flags src) ∧
      (Written s → ∀ out, (lzssTokens flags src).foldlM LzssToken.decode s.dest = some out →
        s'.dest = out) := by
  induction fuel generalizing s flags src with
  | zero => exact absurd hfuel (Nat.not_lt_zero _)
  | succ fuel ih =>
    -- a pass that ends the loop, and the stream with it
    have hleave {s' : LzssState} (hnil : lzssTokens flags src = [])
        (hpass : (s.startRun mem >>= LzssState.decodeItem mem) = .error s')
        (hend : s'.src = s.src + src.length ∧ s'.dest = s.dest) : ∃ s',
        LzssState.loop mem (fuel + 1) s = some s' ∧ s'.src = s.src + src.length ∧
        s'.dest.length = s.dest.length + lzssLength (lzssTokens flags src) ∧
        (Written s → ∀ out, (lzssTokens flags src).foldlM LzssToken.decode s.dest = some out →
          s'.dest = out) := by
      refine ⟨s', by rw [LzssState.loop, hpass], hend.1, by rw [hend.2, hnil]; rfl, ?_⟩
      intro _ out hout
      rw [hnil] at hout
      exact hend.2.trans (Option.some.inj hout)
    rcases startRun_spec h with ⟨rfl, rfl, s', hrun, hend⟩ |
      ⟨s₁, flag, flags₁, src₁, hrun, hread, hsrc, hle, hkeeps, htokens⟩
    · exact hleave rfl (by rw [hrun]; rfl) hend
    · have hpass : (s.startRun mem >>= LzssState.decodeItem mem) = s₁.decodeItem mem := by
        rw [hrun]
        rfl
      rcases decodeItem_spec hread with ⟨hnil, s', hitem, hend, hdest⟩ |
        ⟨t, s₂, src₂, hitem, hread₂, hsrc₂, hlt, htokens₂, hemits⟩
      · exact hleave (htokens.trans hnil) (hpass.trans hitem) ⟨hend.trans hsrc, hdest.trans hkeeps.dest⟩
      · obtain ⟨s', hloop, hsrc', hlength, hdest⟩ := ih hread₂ (by omega)
        refine ⟨s', ?_, by omega, ?_, ?_⟩
        · rw [LzssState.loop, hpass, hitem]
          exact hloop
        · rw [hlength, hemits.length, hkeeps.dest, htokens, htokens₂]
          simp only [lzssLength, List.map_cons, List.sum_cons]
          omega
        · intro hw out hout
          rw [htokens, htokens₂, List.foldlM_cons, Option.bind_eq_bind, Option.bind_eq_some_iff] at hout
          obtain ⟨out₁, hout₁, hout⟩ := hout
          obtain ⟨rfl, hw₂⟩ := (hemits.after hkeeps).dest hw out₁ hout₁
          exact hdest hw₂ out hout

/-- The bytes of the stream; a negative size is an empty one. -/
def streamBytes (mem : Nat → Byte) (size : Int) : List Byte := (List.range size.toNat).map mem

theorem decodeLzss_spec (dict mem : Nat → Byte) (size : Int) :
    ∃ s, decodeLzss dict mem size = some s ∧ s.src = size.toNat ∧
      s.dest.length = lzssLength (lzssTokens [] (streamBytes mem size)) ∧
      ∀ out, lzssDecode (streamBytes mem size) = some out → s.dest = out := by
  have hlength : (streamBytes mem size).length = size.toNat := by simp [streamBytes]
  have hread : Reading mem ⟨0, [], size, 0, 0xfee, dict⟩ [] (streamBytes mem size) := by
    refine ⟨fun i c hc => ?_, hlength.symm, .inr ⟨rfl, Nat.zero_lt_succ _⟩⟩
    simp only [streamBytes, List.getElem?_map, Option.map_eq_some_iff] at hc
    obtain ⟨j, hj, rfl⟩ := hc
    obtain ⟨-, rfl⟩ := List.getElem?_eq_some_iff.mp hj
    simp
  obtain ⟨s, hloop, hsrc, hdest, hout⟩ := loop_spec hread (by omega : _ < size.toNat + 1)
  refine ⟨s, hloop, by rw [hsrc, hlength]; simp, by rw [hdest]; simp, fun out hdecode => ?_⟩
  exact hout ⟨holds_nil _ _ _, rfl⟩ out hdecode

end SheepShear.Rom
