import SheepShear.Cd.Play

/-!
# When a range is heard exactly

One lemma for each way `fill_buffer` goes, and the ranges that are heard exactly
whatever the lengths of the buffers are.
-/

namespace SheepShear.Cd

open Steps

variable {f : BinFile} {silenceByte : Byte} {start stop : DiscTime} {track : Track}

-- ---------------------------------------------------------------------------
-- Machine arithmetic
-- ---------------------------------------------------------------------------

theorem rawSize_toNat : rawSize.toNat = rawSectorSize := rfl

theorem DiscTime.frames_le (t : DiscTime) : t.frames.toNat ≤ 1166880 := by
  have hm := t.m.isLt
  have hs := t.s.isLt
  have hf := t.f.isLt
  have hminute : (60 : Word).toNat = 60 := rfl
  have hsecond : cdFrames.toNat = 75 := rfl
  have hwide (b : Byte) : (b.setWidth 32).toNat = b.toNat := by
    rw [BitVec.toNat_setWidth]
    exact Nat.mod_eq_of_lt (b.isLt.trans (by decide))
  rw [DiscTime.frames, BitVec.toNat_add, BitVec.toNat_add, BitVec.toNat_mul, BitVec.toNat_mul,
    BitVec.toNat_mul, hwide, hwide, hwide, hminute, hsecond,
    Nat.mod_eq_of_lt (a := t.m.toNat * 60) (by omega),
    Nat.mod_eq_of_lt (a := t.m.toNat * 60 * 75) (by omega),
    Nat.mod_eq_of_lt (a := t.s.toNat * 75) (by omega)]
  exact (Nat.mod_le ..).trans ((Nat.add_le_add_right (Nat.mod_le ..) _).trans (by omega))

theorem rangeBytes_lt (start stop : DiscTime) : rangeBytes start stop < 2 ^ 32 - 1 := by
  have := stop.frames_le
  unfold rangeBytes rawSectorSize
  omega

theorem rangeBytes_toNat (horder : start.frames.toNat ≤ stop.frames.toNat) :
    ((stop.frames - start.frames) * rawSize).toNat = rangeBytes start stop := by
  have := stop.frames_le
  have := start.frames_le
  rw [BitVec.toNat_mul, BitVec.toNat_sub, rawSize_toNat, rangeBytes, rawSectorSize]
  omega

/-- The test whether the range is over. -/
theorem over_iff (horder : start.frames.toNat ≤ stop.frames.toNat) {position : Word}
    (hposition : position.toNat ≤ rangeBytes start stop) :
    stop.frames ≤ start.frames + position / rawSize ↔ rangeBytes start stop ≤ position.toNat := by
  have := stop.frames_le
  have := start.frames_le
  rw [BitVec.le_def, BitVec.toNat_add, BitVec.toNat_udiv, rawSize_toNat]
  unfold rangeBytes rawSectorSize at hposition ⊢
  omega

theorem toInt_sub_eq {x y : Word} (hlo : -2 ^ 31 ≤ x.toInt - y.toNat) :
    (x - y).toInt = x.toInt - y.toNat := by
  rw [BitVec.toInt_eq_toNat_cond] at hlo ⊢
  rw [BitVec.toInt_eq_toNat_cond, BitVec.toNat_sub]
  split <;> split <;> split at hlo <;> omega

theorem toNat_add_ofInt {x : Word} {v : Int} (hlo : 0 ≤ x.toNat + v) (hhi : x.toNat + v < 2 ^ 32) :
    ((x + BitVec.ofInt 32 v).toNat : Int) = x.toNat + v := by
  rw [BitVec.toNat_add, BitVec.toNat_ofInt]
  omega

-- ---------------------------------------------------------------------------
-- One buffer
-- ---------------------------------------------------------------------------

/-- The player has the range, with this silence and this file offset. -/
structure Ready (start stop : DiscTime) (silence : Word) (fileoffset : Nat) (player : CDPlayer) :
    Prop where
  audiostart : player.audiostart = start.frames
  audioend : player.audioend = stop.frames
  silence : player.silence = silence
  fileoffset : player.fileoffset = fileoffset
  order : start.frames.toNat ≤ stop.frames.toNat
  position : player.audioposition.toNat ≤ rangeBytes start stop

variable {silence : Word} {fileoffset streamLen offset : Nat} {player : CDPlayer}

theorem Ready.setPosition (h : Ready start stop silence fileoffset player) {position : Word}
    (hposition : position.toNat ≤ rangeBytes start stop) :
    Ready start stop silence fileoffset { player with audioposition := position } :=
  ⟨h.audiostart, h.audioend, h.silence, h.fileoffset, h.order, hposition⟩

theorem Ready.over_iff (h : Ready start stop silence fileoffset player) :
    player.audioend ≤ player.audiostart + player.audioposition / rawSize ↔
      rangeBytes start stop ≤ player.audioposition.toNat := by
  rw [h.audiostart, h.audioend]
  exact Cd.over_iff h.order h.position

theorem fillBuffer_over (h : Ready start stop silence fileoffset player)
    (hplay : player.audiostatus = .play)
    (hover : rangeBytes start stop ≤ player.audioposition.toNat) :
    fillBuffer f silenceByte streamLen player =
      (some (List.replicate streamLen silenceByte), { player with audiostatus := .completed }) := by
  rw [fillBuffer, if_pos hplay, if_pos (h.over_iff.mpr hover)]

theorem fillBuffer_silent (h : Ready start stop silence fileoffset player)
    (hplay : player.audiostatus = .play)
    (hbefore : player.audioposition.toNat < rangeBytes start stop)
    (hremaining : streamLen ≤ (silence - player.audioposition).toInt) :
    fillBuffer f silenceByte streamLen player =
      (some (List.replicate streamLen silenceByte),
        { player with audioposition := player.audioposition + BitVec.ofNat 32 streamLen }) := by
  rw [fillBuffer, if_pos hplay, if_neg (mt h.over_iff.mp (Nat.not_le.mpr hbefore)), h.silence,
    if_pos hremaining]

/-- The silence that is left comes first. -/
theorem fillBuffer_data (h : Ready start stop silence fileoffset player)
    (hplay : player.audiostatus = .play)
    (hbefore : player.audioposition.toNat < rangeBytes start stop)
    (hremaining : (silence - player.audioposition).toInt < streamLen) :
    fillBuffer f silenceByte streamLen player =
      fillData f silenceByte streamLen (silence - player.audioposition).toInt.toNat
        { player with
          audioposition := player.audioposition +
            BitVec.ofNat 32 (silence - player.audioposition).toInt.toNat } := by
  obtain rfl := h.silence
  rw [fillBuffer, if_pos hplay, if_neg (mt h.over_iff.mp (Nat.not_le.mpr hbefore)),
    if_neg (not_le.mpr hremaining)]
  by_cases hleft : 0 < (player.silence - player.audioposition).toInt
  · rw [if_pos hleft]
    have hcast : BitVec.ofInt 32 (player.silence - player.audioposition).toInt =
        BitVec.ofNat 32 (player.silence - player.audioposition).toInt.toNat := by
      rw [← BitVec.ofInt_natCast, Int.toNat_of_nonneg hleft.le]
    rw [hcast]
  · have hzero : (player.silence - player.audioposition).toInt.toNat = 0 := by omega
    rw [if_neg hleft, hzero, BitVec.add_zero]

theorem fillData_none (h : Ready start stop silence fileoffset player)
    (hlseek : (fileoffset + player.audioposition.toNat : Int) < silence.toNat) :
    fillData f silenceByte streamLen offset player = (none, player) := by
  have hnegative : (fileoffset + player.audioposition.toNat - silence.toNat : Int) < 0 := by omega
  simp only [fillData, h.silence, h.fileoffset, BinFile.lseek, if_pos hnegative]

/-- What is left of the range is taken from the file, as far as the buffer has room. -/
theorem fillData_some (h : Ready start stop silence fileoffset player) (left : Nat)
    (hleft : player.audioposition.toNat + left = rangeBytes start stop) (hint : left < 2 ^ 31)
    (hlseek : silence.toNat ≤ fileoffset + player.audioposition.toNat)
    (hoffset : offset ≤ streamLen) (silenceByte : Byte) :
    fillData f silenceByte streamLen offset player =
      (some (List.replicate offset silenceByte ++
          f.read (fileoffset + player.audioposition.toNat - silence.toNat)
            (min (streamLen - offset) left) ++
          List.replicate (streamLen - offset -
            (f.read (fileoffset + player.audioposition.toNat - silence.toNat)
              (min (streamLen - offset) left)).length) silenceByte),
        { player with audioposition :=
            player.audioposition + BitVec.ofNat 32 (min (streamLen - offset) left) }) := by
  have hrange := rangeBytes_toNat h.order
  have hlt := rangeBytes_lt start stop
  have havailable : ((stop.frames - start.frames) * rawSize - player.audioposition).toInt =
      left := by
    rw [BitVec.toInt_eq_toNat_of_lt] <;> rw [BitVec.toNat_sub, hrange] <;> omega
  have hcapped : (if ((streamLen : Int) - offset) < (left : Int) then ((streamLen : Int) - offset)
      else (left : Int)) = (min (streamLen - offset) left : Nat) := by
    split <;> omega
  have hposition : ¬((fileoffset + player.audioposition.toNat - silence.toNat : Int) < 0) := by omega
  have hat : (fileoffset + player.audioposition.toNat - silence.toNat : Int).toNat =
      fileoffset + player.audioposition.toNat - silence.toNat := by omega
  simp only [fillData, h.audioend, h.audiostart, h.silence, h.fileoffset, havailable, hcapped,
    BinFile.lseek, if_neg hposition, hat, Int.toNat_natCast]
  rw [if_neg (by omega)]
  generalize hdata : f.read (fileoffset + player.audioposition.toNat - silence.toNat)
    (min (streamLen - offset) left) = data
  have hread : data.length ≤ min (streamLen - offset) left := by
    rw [← hdata, BinFile.read, List.length_take]
    exact Nat.min_le_left ..
  have hcount : data.length + min (streamLen - offset - data.length)
      (min (streamLen - offset) left - data.length) = min (streamLen - offset) left := by
    omega
  rw [hcount]

/-- Where what is left is no `int`, the position goes to the end of the range. -/
theorem fillData_jump (h : Ready start stop silence fileoffset player) (left : Nat)
    (hleft : player.audioposition.toNat + left = rangeBytes start stop) (hint : 2 ^ 31 ≤ left)
    (hlseek : silence.toNat ≤ fileoffset + player.audioposition.toNat)
    (hoffset : offset ≤ streamLen) (silenceByte : Byte) :
    ∃ position : Word, position.toNat = rangeBytes start stop ∧
      fillData f silenceByte streamLen offset player =
        (some (List.replicate offset silenceByte ++
            List.replicate (streamLen - offset) silenceByte),
          { player with audioposition := position }) := by
  have hrange := rangeBytes_toNat h.order
  have hlt := rangeBytes_lt start stop
  have havailable : ((stop.frames - start.frames) * rawSize - player.audioposition).toInt =
      left - 2 ^ 32 := by
    rw [BitVec.toInt_eq_toNat_cond, BitVec.toNat_sub, hrange, if_neg (by omega)]
    omega
  have hcapped : ¬((streamLen : Int) - offset < (left : Int) - 2 ^ 32) := by omega
  have hposition : ¬((fileoffset + player.audioposition.toNat - silence.toNat : Int) < 0) := by omega
  have hzero : ((left : Int) - 2 ^ 32).toNat = 0 := by omega
  refine ⟨player.audioposition + BitVec.ofInt 32 (left - 2 ^ 32), ?_, ?_⟩
  · rw [BitVec.toNat_add, BitVec.toNat_ofInt]
    omega
  · simp only [fillData, h.audioend, h.audiostart, h.silence, h.fileoffset, havailable,
      if_neg hcapped, BinFile.lseek, if_neg hposition, hzero, BinFile.read, List.take_zero,
      List.length_nil, List.append_nil, Nat.sub_zero]
    rw [if_pos (by omega)]
    simp

/-- A read with silence for what the file does not have. -/
theorem read_padded {position count room : Nat} (hcount : count ≤ room) :
    f.read position count ++
        List.replicate (room - (f.read position count).length) silenceByte =
      (List.range room).map fun j =>
        if j < count then f.bytes.getD (position + j) silenceByte else silenceByte := by
  have hread : (f.read position count).length = min count (f.bytes.length - position) := by
    rw [BinFile.read, List.length_take, List.length_drop]
  apply List.ext_getElem
  · rw [List.length_append, List.length_replicate, List.length_map, List.length_range, hread]
    omega
  · intro j hj _
    rw [List.getElem_map, List.getElem_range]
    by_cases hin : j < (f.read position count).length
    · rw [List.getElem_append_left hin, if_pos (by omega)]
      simp only [BinFile.read, List.getElem_take, List.getElem_drop]
      rw [List.getD_eq_getElem _ _ (by omega)]
    · rw [List.getElem_append_right (Nat.le_of_not_lt hin), List.getElem_replicate]
      split
      · rw [List.getD_eq_default _ _ (by omega)]
      · rfl

-- ---------------------------------------------------------------------------
-- Ranges that are heard exactly
-- ---------------------------------------------------------------------------

/-- The player's silence and file offset give the stream, of which the range has the first bytes. -/
structure Streams (f : BinFile) (silenceByte : Byte) (size : Nat) (silence : Word)
    (fileoffset : Nat) (stream : Nat → Byte) : Prop where
  silenceEnds : silence.toInt ≤ size
  dataFits : size < max silence.toInt 0 + 2 ^ 31
  noWrap : size ≤ silence.toInt + 2 ^ 31 + 1
  quiet : ∀ k : Nat, (k : Int) < silence.toInt → stream k = silenceByte
  data : ∀ k : Nat, silence.toInt ≤ k → k < size → silence.toNat ≤ fileoffset + k ∧
    stream k = f.bytes.getD (fileoffset + k - silence.toNat) silenceByte

/-- The invariant of the playback. -/
structure Hearing (stream : Nat → Byte) (start stop : DiscTime) (silence : Word) (fileoffset : Nat)
    (s : Playback) : Prop where
  ready : Ready start stop silence fileoffset s.player
  position : s.player.audioposition.toNat = min s.heard.length (rangeBytes start stop)
  heard : s.heard = (List.range s.heard.length).map stream
  completed : ∀ n, s.completedAt = some n → rangeBytes start stop ≤ n

theorem range_append {stream : Nat → Byte} {heard buffer : List Byte}
    (hheard : heard = (List.range heard.length).map stream)
    (hbuffer : buffer = (List.range buffer.length).map fun j => stream (heard.length + j)) :
    heard ++ buffer = (List.range (heard ++ buffer).length).map stream := by
  rw [List.length_append, List.range_add, List.map_append, ← hheard, List.map_map]
  exact congrArg (heard ++ ·) hbuffer

theorem replicate_eq_map {n : Nat} {b : Byte} {g : Nat → Byte} (hg : ∀ j < n, g j = b) :
    List.replicate n b = (List.range n).map g := by
  apply List.ext_getElem
  · simp
  · intro j hj _
    rw [List.getElem_replicate, List.getElem_map, List.getElem_range]
    exact (hg j (by simpa using hj)).symm

variable {stream : Nat → Byte} {s : Playback}

/-- A buffer of the range, or of the silence behind it. -/
theorem Hearing.fill (h : Hearing stream start stop silence fileoffset s)
    (hafter : ∀ k, rangeBytes start stop ≤ k → stream k = silenceByte)
    (hstream : rangeBytes start stop = 0 ∨
      Streams f silenceByte (rangeBytes start stop) silence fileoffset stream)
    (hplay : s.player.audiostatus = .play) (hn : 0 < streamLen ∧ streamLen < 2 ^ 31) :
    ∃ buffer player, fillBuffer f silenceByte streamLen s.player = (some buffer, player) ∧
      buffer.length = streamLen ∧ Ready start stop silence fileoffset player ∧
      player.audioposition.toNat = min (s.heard.length + streamLen) (rangeBytes start stop) ∧
      (buffer = (List.range buffer.length).map fun j => stream (s.heard.length + j)) ∧
      (player.audiostatus = .completed → rangeBytes start stop ≤ s.heard.length) := by
  have hlt := rangeBytes_lt start stop
  have hposition := h.position
  by_cases hover : rangeBytes start stop ≤ s.player.audioposition.toNat
  · refine ⟨_, _, fillBuffer_over h.ready hplay hover, List.length_replicate, ?_, ?_, ?_, ?_⟩
    · exact ⟨h.ready.audiostart, h.ready.audioend, h.ready.silence, h.ready.fileoffset,
        h.ready.order, h.ready.position⟩
    · change s.player.audioposition.toNat = _
      omega
    · rw [List.length_replicate]
      exact replicate_eq_map fun j _ => hafter _ (by omega)
    · intro
      omega
  · have hstream := hstream.resolve_left (by omega)
    have hbefore : s.player.audioposition.toNat < rangeBytes start stop := by omega
    have hlength : s.heard.length = s.player.audioposition.toNat := by omega
    have hremaining : (silence - s.player.audioposition).toInt =
        silence.toInt - s.player.audioposition.toNat :=
      toInt_sub_eq (by have := hstream.noWrap; omega)
    have hends := hstream.silenceEnds
    have hstatus (position : Word) :
        ({ s.player with audioposition := position } : CDPlayer).audiostatus ≠ .completed := by
      change s.player.audiostatus ≠ .completed
      rw [hplay]
      decide
    by_cases hsilent : (streamLen : Int) ≤ (silence - s.player.audioposition).toInt
    · have hnext : (s.player.audioposition + BitVec.ofNat 32 streamLen).toNat =
          s.player.audioposition.toNat + streamLen := by
        rw [BitVec.toNat_add, BitVec.toNat_ofNat]
        omega
      refine ⟨_, _, fillBuffer_silent h.ready hplay hbefore hsilent, List.length_replicate,
        h.ready.setPosition (by omega), by rw [hnext]; omega, ?_, fun hend => absurd hend (hstatus _)⟩
      rw [List.length_replicate]
      exact replicate_eq_map fun j hj => hstream.quiet _ (by omega)
    · -- the rest of the silence, and then the file from `next` on
      have hdata : fillBuffer f silenceByte streamLen s.player = _ :=
        fillBuffer_data h.ready hplay hbefore (not_le.mp hsilent)
      generalize hoffset : (silence - s.player.audioposition).toInt.toNat = offset at hdata
      have hnext : (s.player.audioposition + BitVec.ofNat 32 offset).toNat =
          s.player.audioposition.toNat + offset := by
        rw [BitVec.toNat_add, BitVec.toNat_ofNat]
        omega
      generalize s.player.audioposition + BitVec.ofNat 32 offset = next at hdata hnext
      have hready : Ready start stop silence fileoffset { s.player with audioposition := next } :=
        h.ready.setPosition (by omega)
      obtain ⟨left, hleft⟩ : ∃ left, rangeBytes start stop = next.toNat + left :=
        Nat.exists_eq_add_of_le hready.position
      have hlseek : silence.toNat ≤ fileoffset + next.toNat := by
        by_cases hmore : 0 < left
        · exact (hstream.data next.toNat (by omega) (by omega)).1
        · have hnonneg := BitVec.toInt_eq_toNat_cond silence
          split at hnonneg <;> omega
      have hint : left < 2 ^ 31 := by
        have := hstream.dataFits
        omega
      rw [fillData_some hready left hleft.symm hint hlseek (by omega : offset ≤ streamLen) _] at hdata
      simp only at hdata
      have hcount : (next + BitVec.ofNat 32 (min (streamLen - offset) left)).toNat =
          min (s.heard.length + streamLen) (rangeBytes start stop) := by
        rw [BitVec.toNat_add, BitVec.toNat_ofNat]
        omega
      rw [List.append_assoc, read_padded (Nat.min_le_left ..)] at hdata
      have hlen : (List.replicate offset silenceByte ++ (List.range (streamLen - offset)).map fun j =>
          if j < min (streamLen - offset) left then
            f.bytes.getD (fileoffset + next.toNat - silence.toNat + j) silenceByte
          else silenceByte).length = streamLen := by
        simp only [List.length_append, List.length_replicate, List.length_map, List.length_range]
        omega
      refine ⟨_, _, hdata, hlen, hready.setPosition (by rw [hcount]; omega), hcount, ?_,
        fun hend => absurd hend (hstatus _)⟩
      rw [hlen]
      have hsplit : streamLen = offset + (streamLen - offset) := by omega
      conv_rhs => rw [hsplit, List.range_add, List.map_append, List.map_map]
      congr 1
      · exact replicate_eq_map fun j hj => hstream.quiet _ (by omega)
      · refine List.map_congr_left fun j hj => ?_
        have hj := List.mem_range.mp hj
        simp only [Function.comp]
        split
        · obtain ⟨hseek, hbyte⟩ := hstream.data (s.heard.length + (offset + j)) (by omega) (by omega)
          rw [hbyte]
          congr 1
          omega
        · exact (hafter _ (by omega)).symm

theorem Ready.setStatus (h : Ready start stop silence fileoffset player) (status : AudioStatus) :
    Ready start stop silence fileoffset { player with audiostatus := status } :=
  ⟨h.audiostart, h.audioend, h.silence, h.fileoffset, h.order, h.position⟩

/-- A pause and a resume set the status only. -/
theorem exists_status (player : CDPlayer) :
    (∃ status, cdPause player = { player with audiostatus := status }) ∧
      ∃ status, cdResume player = { player with audiostatus := status } := by
  unfold cdPause cdResume
  constructor
  · by_cases hplay : player.audiostatus = .play
    · exact ⟨.paused, if_pos hplay⟩
    · exact ⟨player.audiostatus, if_neg hplay⟩
  · by_cases hpaused : player.audiostatus = .paused
    · exact ⟨.play, if_pos hpaused⟩
    · exact ⟨player.audiostatus, if_neg hpaused⟩

/-- While the player does not play, a buffer is silent and nothing changes. -/
theorem playStep_fill {s' : Playback} (hstep : playStep f silenceByte s (.fill streamLen) = some s') :
    (0 < streamLen ∧ streamLen < 2 ^ 31) ∧
      (s.player.audiostatus ≠ .play ∧ s' = s ∨
        s.player.audiostatus = .play ∧
          s' = ⟨(fillBuffer f silenceByte streamLen s.player).2,
            s.heard ++ (fillBuffer f silenceByte streamLen s.player).1.getD [],
            if (fillBuffer f silenceByte streamLen s.player).2.audiostatus = .completed then
              some s.heard.length
            else s.completedAt⟩) := by
  by_cases hn : 0 < streamLen ∧ streamLen < 2 ^ 31
  · simp only [playStep, if_pos hn] at hstep
    refine ⟨hn, ?_⟩
    by_cases hplay : s.player.audiostatus = .play
    · rw [if_pos hplay] at hstep
      exact .inr ⟨hplay, (Option.some.inj hstep).symm⟩
    · rw [if_neg hplay, fillBuffer, if_neg hplay] at hstep
      exact .inl ⟨hplay, (Option.some.inj hstep).symm⟩
  · simp only [playStep, if_neg hn] at hstep
    cases hstep

/-- What a step preserves. -/
theorem Hearing.step (h : Hearing stream start stop silence fileoffset s)
    (hafter : ∀ k, rangeBytes start stop ≤ k → stream k = silenceByte)
    (hstream : rangeBytes start stop = 0 ∨
      Streams f silenceByte (rangeBytes start stop) silence fileoffset stream)
    {act : PlayAct} {s' : Playback} (hstep : playStep f silenceByte s act = some s') :
    Hearing stream start stop silence fileoffset s' := by
  obtain ⟨⟨_, hpause⟩, _, hresume⟩ := exists_status s.player
  cases act with
  | pause =>
    rw [← Option.some.inj hstep, hpause]
    exact ⟨h.ready.setStatus _, h.position, h.heard, h.completed⟩
  | resume =>
    rw [← Option.some.inj hstep, hresume]
    exact ⟨h.ready.setStatus _, h.position, h.heard, h.completed⟩
  | fill streamLen =>
    obtain ⟨hn, ⟨-, rfl⟩ | ⟨hplay, rfl⟩⟩ := playStep_fill hstep
    · exact h
    · obtain ⟨buffer, player, hfill, hlen, hready, hposition, hbuffer, hover⟩ :=
        h.fill hafter hstream hplay hn
      rw [hfill]
      refine ⟨hready, ?_, range_append h.heard hbuffer, fun n hcompleted => ?_⟩
      · change player.audioposition.toNat = min (s.heard ++ buffer).length _
        rw [List.length_append, hlen, hposition]
      · change (if player.audiostatus = .completed then some s.heard.length else s.completedAt) =
          some n at hcompleted
        split at hcompleted
        next hend => exact Option.some.inj hcompleted ▸ hover hend
        next => exact h.completed n hcompleted

/-- The player at a place in front of the file: no buffer is returned. -/
structure Mute (start stop : DiscTime) (silence : Word) (fileoffset : Nat) (s : Playback) :
    Prop where
  ready : Ready start stop silence fileoffset s.player
  position : s.player.audioposition = 0
  heard : s.heard = []
  completed : s.completedAt = none

theorem Mute.step (h : Mute start stop silence fileoffset s) (hrange : 0 < rangeBytes start stop)
    (hnegative : silence.toInt < 0) (hfront : fileoffset < silence.toNat) {act : PlayAct}
    {s' : Playback} (hstep : playStep f silenceByte s act = some s') :
    Mute start stop silence fileoffset s' := by
  obtain ⟨⟨_, hpause⟩, _, hresume⟩ := exists_status s.player
  cases act with
  | pause =>
    rw [← Option.some.inj hstep, hpause]
    exact ⟨h.ready.setStatus _, h.position, h.heard, h.completed⟩
  | resume =>
    rw [← Option.some.inj hstep, hresume]
    exact ⟨h.ready.setStatus _, h.position, h.heard, h.completed⟩
  | fill streamLen =>
    obtain ⟨hn, ⟨-, rfl⟩ | ⟨hplay, rfl⟩⟩ := playStep_fill hstep
    · exact h
    · have hremaining : (silence - s.player.audioposition).toInt = silence.toInt := by
        simp [h.position]
      have hzero : silence.toInt.toNat = 0 := by omega
      have hfill : fillBuffer f silenceByte streamLen s.player = (none, s.player) := by
        rw [fillBuffer_data h.ready hplay (by rw [h.position]; exact hrange) (by omega), hremaining,
          hzero, BitVec.add_zero]
        exact fillData_none h.ready (by rw [h.position]; simpa using hfront)
      rw [hfill]
      refine ⟨h.ready, h.position, by simp [h.heard], ?_⟩
      rw [if_neg (by rw [hplay]; decide)]
      exact h.completed

-- ---------------------------------------------------------------------------
-- The condition
-- ---------------------------------------------------------------------------

/-- For the range, the silence and the file offset of the track that is found are those of the
track that the range is in. -/
structure SameStream (own found : Track) (start stop : DiscTime) : Prop where
  silenceEnds : (found.silentBytes start.frames).toInt ≤ rangeBytes start stop
  dataFits : rangeBytes start stop < (found.silentBytes start.frames).toInt.toNat + 2 ^ 31
  noWrap : rangeBytes start stop ≤ (found.silentBytes start.frames).toInt + 2 ^ 31 + 1
  silence : (found.silentBytes start.frames).toInt.toNat =
    min (own.pregapLeft start.frames.toNat) (rangeBytes start stop)
  data : (found.silentBytes start.frames).toInt.toNat < rangeBytes start stop →
    found.playOffset start.frames + (found.silentBytes start.frames).toInt.toNat =
      own.dataStart start.frames.toNat + (found.silentBytes start.frames).toNat

/-- The silence is negative as an `int`, and no data are that far in front of the track's. -/
def NoBuffers (found : Track) (start : DiscTime) : Prop :=
  (found.silentBytes start.frames).toInt < 0 ∧
    found.playOffset start.frames < (found.silentBytes start.frames).toNat

/-- The start is found in a track, and if there is something to play, that track gives the stream
of the range or no buffers at all. -/
def Playable (cs : CueSheet) (i : Nat) (start stop : DiscTime) : Prop :=
  positionToTrack cs start.frames < cs.tcnt ∧
    (rangeBytes start stop = 0 ∨
      NoBuffers (cs.tracks (positionToTrack cs start.frames)) start ∨
      SameStream (cs.tracks i) (cs.tracks (positionToTrack cs start.frames)) start stop)

theorem SameStream.streams {own found : Track} (h : SameStream own found start stop) :
    Streams f silenceByte (rangeBytes start stop) (found.silentBytes start.frames)
      (found.playOffset start.frames)
      (own.rangeByte f silenceByte start.frames.toNat (rangeBytes start stop)) where
  silenceEnds := h.silenceEnds
  dataFits := by
    have := h.dataFits
    omega
  noWrap := h.noWrap
  quiet k hk := by
    have := h.silence
    rw [Track.rangeByte, if_pos (by omega)]
  data k hsilent hk := by
    have := h.silence
    have hdata := h.data (by omega)
    refine ⟨by omega, ?_⟩
    rw [Track.rangeByte, if_neg (by omega)]
    congr 1
    omega

theorem rangeByte_after {own : Track} {size k : Nat} (hk : size ≤ k) (frame : Nat) :
    own.rangeByte f silenceByte frame size k = silenceByte := if_pos (.inr hk)

theorem cdPlay_ready {cs : CueSheet} (hfound : positionToTrack cs start.frames < cs.tcnt)
    (horder : start.frames.toNat ≤ stop.frames.toNat) (player : CDPlayer) :
    Ready start stop ((cs.tracks (positionToTrack cs start.frames)).silentBytes start.frames)
        ((cs.tracks (positionToTrack cs start.frames)).playOffset start.frames)
        (cdPlay true cs start stop player) ∧
      (cdPlay true cs start stop player).audioposition = 0 ∧
      (cdPlay true cs start stop player).audiostatus = .play := by
  simp only [cdPlay, hfound, if_true]
  exact ⟨⟨rfl, rfl, rfl, rfl, horder, Nat.zero_le _⟩, trivial, trivial⟩

theorem playsExactly_of_playable {cs : CueSheet} {i : Nat} (hinside : Inside cs i start stop)
    (hplayable : Playable cs i start stop) : PlaysExactly silenceByte cs i start stop := by
  intro player f acts s hrun
  obtain ⟨hfound, hstream⟩ := hplayable
  obtain ⟨hready, hposition, hplay⟩ := cdPlay_ready hfound hinside.order player
  have hreach := reaches_of_run hrun
  by_cases hmute : 0 < rangeBytes start stop ∧
      NoBuffers (cs.tracks (positionToTrack cs start.frames)) start
  · obtain ⟨hrange, hnegative, hfront⟩ := hmute
    have h : Mute start stop _ _ s :=
      hreach.invariant ⟨hready, hposition, rfl, rfl⟩
        fun hmute _ hstep => hmute.step hrange hnegative hfront hstep
    exact ⟨by simp [h.heard], by simp [h.position], by simp [h.completed]⟩
  · have hstream : rangeBytes start stop = 0 ∨
        SameStream (cs.tracks i) (cs.tracks (positionToTrack cs start.frames)) start stop := by
      rcases hstream with hzero | hnone | hsame
      · exact .inl hzero
      · exact .inl (by by_contra hrange; exact hmute ⟨Nat.pos_of_ne_zero hrange, hnone⟩)
      · exact .inr hsame
    have h : Hearing ((cs.tracks i).rangeByte f silenceByte start.frames.toNat
        (rangeBytes start stop)) start stop _ _ s :=
      hreach.invariant ⟨hready, by simp [hposition], rfl, nofun⟩
        fun hhearing _ hstep => hhearing.step (fun _ hk => rangeByte_after hk _)
          (hstream.imp_right SameStream.streams) hstep
    exact ⟨h.heard, h.ready.position, h.completed⟩

-- ---------------------------------------------------------------------------
-- Ranges that are not heard exactly
-- ---------------------------------------------------------------------------

/-- At the start of the range. -/
structure Fresh (start stop : DiscTime) (silence : Word) (fileoffset : Nat) (player : CDPlayer) :
    Prop where
  ready : Ready start stop silence fileoffset player
  position : player.audioposition = 0
  play : player.audiostatus = .play

theorem playStep_of_play (hplay : s.player.audiostatus = .play)
    (hn : 0 < streamLen ∧ streamLen < 2 ^ 31) (silenceByte : Byte) :
    playStep f silenceByte s (.fill streamLen) =
      some ⟨(fillBuffer f silenceByte streamLen s.player).2,
        s.heard ++ (fillBuffer f silenceByte streamLen s.player).1.getD [],
        if (fillBuffer f silenceByte streamLen s.player).2.audiostatus = .completed then
          some s.heard.length
        else s.completedAt⟩ := by
  simp only [playStep, if_pos hn, if_pos hplay]

theorem Fresh.remaining (h : Fresh start stop silence fileoffset player) :
    (silence - player.audioposition).toInt = silence.toInt := by
  simp [h.position]

/-- Silence is played up to its end, also when the range has less. -/
theorem Fresh.silent (h : Fresh start stop silence fileoffset player)
    (hrange : 0 < rangeBytes start stop) (hpos : 0 < silence.toInt.toNat) (silenceByte : Byte) :
    ∃ s, run (playStep f silenceByte) ⟨player, [], none⟩ [.fill silence.toInt.toNat] = some s ∧
      s.heard = List.replicate silence.toInt.toNat silenceByte ∧
      s.player.audioposition.toNat = silence.toInt.toNat := by
  have hint := silence.toInt_lt
  have hlt : 0 < silence.toInt.toNat ∧ silence.toInt.toNat < 2 ^ 31 := by omega
  have hfill : fillBuffer f silenceByte silence.toInt.toNat player = _ :=
    fillBuffer_silent h.ready h.play (by rw [h.position]; exact hrange)
      (by rw [h.remaining]; omega)
  refine ⟨_, by rw [run, playStep_of_play h.play hlt _, hfill]; rfl, rfl, ?_⟩
  change (player.audioposition + BitVec.ofNat 32 silence.toInt.toNat).toNat = _
  rw [h.position, BitVec.toNat_add, BitVec.toNat_ofNat]
  simp
  omega

theorem Fresh.setPosition (h : Fresh start stop silence fileoffset player) {n : Nat}
    (hn : n ≤ rangeBytes start stop) :
    (player.audioposition + BitVec.ofNat 32 n).toNat = n ∧
      Ready start stop silence fileoffset
        { player with audioposition := player.audioposition + BitVec.ofNat 32 n } := by
  have hlt := rangeBytes_lt start stop
  have hnext : (player.audioposition + BitVec.ofNat 32 n).toNat = n := by
    rw [h.position, BitVec.toNat_add, BitVec.toNat_ofNat]
    simp
    omega
  exact ⟨hnext, h.ready.setPosition (by rw [hnext]; exact hn)⟩

/-- The silence and the first byte of the data. -/
theorem Fresh.firstData (h : Fresh start stop silence fileoffset player)
    (hdata : silence.toInt.toNat < rangeBytes start stop)
    (hfits : rangeBytes start stop < silence.toInt.toNat + 2 ^ 31)
    (hint : silence.toInt.toNat + 1 < 2 ^ 31)
    (hlseek : silence.toNat ≤ fileoffset + silence.toInt.toNat) :
    ∃ s, run (playStep f silenceByte) ⟨player, [], none⟩ [.fill (silence.toInt.toNat + 1)] =
        some s ∧
      s.heard = List.replicate silence.toInt.toNat silenceByte ++
        [f.bytes.getD (fileoffset + silence.toInt.toNat - silence.toNat) silenceByte] := by
  obtain ⟨hnext, hready⟩ := h.setPosition hdata.le
  have hbefore : player.audioposition.toNat < rangeBytes start stop := by
    rw [h.position]
    exact Nat.zero_lt_of_lt hdata
  refine ⟨_, by rw [run, playStep_of_play h.play ⟨Nat.succ_pos _, hint⟩ _]; rfl, ?_⟩
  rw [fillBuffer_data h.ready h.play hbefore (by rw [h.remaining]; omega), h.remaining]
  obtain ⟨left, hleft⟩ := Nat.exists_eq_add_of_lt hdata
  rw [fillData_some hready (left + 1) (by simp only; omega) (by omega)
    (by simp only; omega) (Nat.le_succ _) _]
  simp only [hnext, Option.getD_some, List.nil_append]
  rw [List.append_assoc, read_padded (Nat.min_le_left ..)]
  have hone : silence.toInt.toNat + 1 - silence.toInt.toNat = 1 := by omega
  rw [hone]
  simp

/-- Where the data are too many for an `int`, the range is over after the first of them. -/
theorem Fresh.jump (h : Fresh start stop silence fileoffset player)
    (hjump : silence.toInt.toNat + 2 ^ 31 ≤ rangeBytes start stop)
    (hint : silence.toInt.toNat + 1 < 2 ^ 31)
    (hlseek : silence.toNat ≤ fileoffset + silence.toInt.toNat) :
    ∃ s, run (playStep f silenceByte) ⟨player, [], none⟩
        [.fill (silence.toInt.toNat + 1), .fill 1] = some s ∧
      s.completedAt = some (silence.toInt.toNat + 1) := by
  obtain ⟨hnext, hready⟩ := h.setPosition (n := silence.toInt.toNat) (by omega)
  have hbefore : player.audioposition.toNat < rangeBytes start stop := by
    rw [h.position]
    exact Nat.zero_lt_of_lt hjump
  obtain ⟨left, hleft⟩ := Nat.exists_eq_add_of_le hready.position
  simp only [hnext] at hleft
  have hjumped := fillData_jump (f := f) hready left (by simp only [hnext]; omega)
    (by omega) (by simp only [hnext]; omega)
    (Nat.le_add_right silence.toInt.toNat 1)
  obtain ⟨position, hposition, hfill⟩ := hjumped silenceByte
  have hrest : (silence - player.audioposition).toInt < (silence.toInt.toNat + 1 : Nat) := by
    rw [h.remaining]
    omega
  have hfirst : fillBuffer f silenceByte (silence.toInt.toNat + 1) player = _ :=
    fillBuffer_data h.ready h.play hbefore hrest
  rw [h.remaining, hfill] at hfirst
  have hend : Ready start stop silence fileoffset { player with audioposition := position } :=
    h.ready.setPosition hposition.le
  have hlast : fillBuffer f silenceByte 1 { player with audioposition := position } = _ :=
    fillBuffer_over hend h.play hposition.ge
  have hs₁ : playStep f silenceByte ⟨player, [], none⟩ (.fill (silence.toInt.toNat + 1)) =
      some ⟨{ player with audioposition := position },
        List.replicate (silence.toInt.toNat + 1) silenceByte, none⟩ := by
    rw [playStep_of_play h.play ⟨Nat.succ_pos _, hint⟩ _, hfirst]
    simp [h.play, List.replicate_succ']
  have hs₂ : playStep f silenceByte ⟨{ player with audioposition := position },
      List.replicate (silence.toInt.toNat + 1) silenceByte, none⟩ (.fill 1) =
        some ⟨{ player with audioposition := position, audiostatus := .completed },
          List.replicate (silence.toInt.toNat + 1) silenceByte ++ [silenceByte],
          some (silence.toInt.toNat + 1)⟩ := by
    rw [playStep_of_play h.play (by decide) _, hlast]
    simp
  exact ⟨_, by rw [run, hs₁, Option.bind_some, run, hs₂]; rfl, rfl⟩

/-- Behind a negative silence that wraps around there is silence again, without an end. -/
theorem Fresh.wrap (h : Fresh start stop silence fileoffset player) (hnegative : silence.toInt < 0)
    (hfits : rangeBytes start stop < 2 ^ 31) (hlseek : silence.toNat ≤ fileoffset)
    (hwrap : silence.toInt + 2 ^ 31 + 1 < rangeBytes start stop) :
    ∃ acts s, run (playStep f silenceByte) ⟨player, [], none⟩ acts = some s ∧
      rangeBytes start stop < s.player.audioposition.toNat := by
  have hmin := silence.le_toInt
  have hunsigned := BitVec.toInt_eq_toNat_cond silence
  obtain ⟨n, hn⟩ : ∃ n : Nat, silence.toInt + 2 ^ 31 + 1 = n := Int.eq_ofNat_of_zero_le (by omega)
  have hzero : silence.toInt.toNat = 0 := by omega
  have hbefore : player.audioposition.toNat < rangeBytes start stop := by
    rw [h.position]
    exact (by omega : 0 < rangeBytes start stop)
  have hrest : (silence - player.audioposition).toInt < n := by
    rw [h.remaining]
    omega
  have hfirst : fillBuffer f silenceByte n player = _ :=
    fillBuffer_data h.ready h.play hbefore hrest
  have hsome := fillData_some (f := f) h.ready (rangeBytes start stop)
    (by rw [h.position]; exact Nat.zero_add _) hfits (by rw [h.position]; exact hlseek)
    (Nat.zero_le n) silenceByte
  rw [h.remaining, hzero, BitVec.add_zero, hsome, Nat.sub_zero, Nat.min_eq_left (by omega)] at hfirst
  obtain ⟨hnext, hready⟩ := h.setPosition (n := n) (by omega)
  have hs₁ := playStep_of_play (f := f) (s := ⟨player, [], none⟩) h.play
    (by omega : 0 < n ∧ n < 2 ^ 31) silenceByte
  rw [hfirst] at hs₁
  have hremaining : ((2 ^ 31 - 1 : Nat) : Int) ≤
      (silence - (player.audioposition + BitVec.ofNat 32 n)).toInt := by
    rw [BitVec.toInt_eq_toNat_cond, BitVec.toNat_sub, hnext]
    split at hunsigned <;> split <;> omega
  have hsecond : fillBuffer f silenceByte (2 ^ 31 - 1)
      { player with audioposition := player.audioposition + BitVec.ofNat 32 n } = _ :=
    fillBuffer_silent hready h.play (by rw [hnext]; omega) hremaining
  refine ⟨[.fill n, .fill (2 ^ 31 - 1)], _,
    by rw [run, hs₁, Option.bind_some, run, playStep_of_play h.play (by decide) _, hsecond]; rfl, ?_⟩
  change _ < (player.audioposition + BitVec.ofNat 32 n + BitVec.ofNat 32 (2 ^ 31 - 1)).toNat
  rw [BitVec.toNat_add, hnext, BitVec.toNat_ofNat]
  split at hunsigned <;> omega

/-- A file that is silent up to its last byte. -/
def lastByteFile (silenceByte : Byte) (n : Nat) (hn : n + 1 < 2 ^ 63) : BinFile where
  bytes := List.replicate n silenceByte ++ [silenceByte + 1]
  size_lt := by simpa using hn

theorem lastByteFile_getD (n : Nat) (hn : n + 1 < 2 ^ 63) (k : Nat) :
    (lastByteFile silenceByte n hn).bytes.getD k silenceByte =
      if k = n then silenceByte + 1 else silenceByte := by
  rw [lastByteFile]
  rcases Nat.lt_trichotomy k n with hlt | rfl | hgt
  · simp [List.getElem?_append_left, hlt, hlt.ne]
  · simp
  · simp [List.getElem?_append_right, hgt.le, hgt.ne', Nat.sub_ne_zero_of_lt hgt]

theorem add_one_ne (b : Byte) : b + 1 ≠ b := by
  intro h
  simp at h

theorem HeardExactly.get (h : HeardExactly track f silenceByte start stop s) {k : Nat}
    (hk : k < s.heard.length) :
    s.heard.getD k silenceByte =
      track.rangeByte f silenceByte start.frames.toNat (rangeBytes start stop) k := by
  rw [List.getD_eq_getElem _ _ hk]
  rw [List.getElem_of_eq h.heard hk, List.getElem_map, List.getElem_range]

/-- The silence is even, and so not the greatest `int`. -/
theorem Track.silentBytes_lt (track : Track) (frame : Word) :
    (track.silentBytes frame).toInt.toNat + 1 < 2 ^ 31 := by
  have heven : (track.silentBytes frame).toNat % 2 = 0 := by
    unfold Track.silentBytes
    split
    · rfl
    · rw [BitVec.toNat_mul, rawSize_toNat, rawSectorSize]
      omega
  rw [BitVec.toInt_eq_toNat_cond]
  split <;> omega

theorem Track.playOffset_lt (track : Track) (frame : Word) : track.playOffset frame < 2 ^ 33 := by
  have hoffset := track.fileoffset.isLt
  unfold Track.playOffset
  split <;> omega

theorem Track.dataStart_lt (track : Track) (t : DiscTime) :
    track.dataStart t.frames.toNat < 2 ^ 33 := by
  have hoffset := track.fileoffset.isLt
  have hframes := t.frames_le
  unfold Track.dataStart rawSectorSize
  omega

theorem playable_of_playsExactly {cs : CueSheet} {i : Nat} (hinside : Inside cs i start stop)
    (hexact : PlaysExactly silenceByte cs i start stop) : Playable cs i start stop := by
  have hlt := rangeBytes_lt start stop
  have hfound : positionToTrack cs start.frames < cs.tcnt := by
    by_contra hnone
    -- the position stays where it was
    have hposition := (hexact ⟨BitVec.ofNat 32 (rangeBytes start stop + 1), 0, 0, 0, .noStatus, 0⟩
      ⟨[], by decide⟩ [] _ rfl).position
    simp only [cdPlay, hnone, if_true, if_false, BitVec.toNat_ofNat] at hposition
    omega
  refine ⟨hfound, ?_⟩
  by_contra hcond
  obtain ⟨hrange, hcond⟩ := not_or.mp hcond
  obtain ⟨hbuffers, hsame⟩ := not_or.mp hcond
  have hrange := Nat.pos_of_ne_zero hrange
  generalize htrack : cs.tracks (positionToTrack cs start.frames) = found at hbuffers hsame
  have hint := found.silentBytes_lt start.frames
  have hseek : (found.silentBytes start.frames).toNat ≤
      found.playOffset start.frames + (found.silentBytes start.frames).toInt.toNat := by
    have hsigned := BitVec.toInt_eq_toNat_cond (found.silentBytes start.frames)
    by_contra hfront
    exact hbuffers ⟨by split at hsigned <;> omega, by omega⟩
  have hfresh (player : CDPlayer) : Fresh start stop (found.silentBytes start.frames)
      (found.playOffset start.frames) (cdPlay true cs start stop player) := by
    obtain ⟨hready, hposition, hplay⟩ := cdPlay_ready hfound hinside.order player
    exact htrack ▸ ⟨hready, hposition, hplay⟩
  have hexact (f : BinFile) (acts : List PlayAct) (s : Playback)
      (hrun : run (playStep f silenceByte)
        ⟨cdPlay true cs start stop ⟨0, 0, 0, 0, .noStatus, 0⟩, [], none⟩ acts = some s) :
      HeardExactly (cs.tracks i) f silenceByte start stop s := hexact _ f acts s hrun
  have hfresh := hfresh ⟨0, 0, 0, 0, .noStatus, 0⟩
  generalize cdPlay true cs start stop ⟨0, 0, 0, 0, .noStatus, 0⟩ = player at hexact hfresh
  have hoffset := found.playOffset_lt start.frames
  have hstart := (cs.tracks i).dataStart_lt start
  have hends : (found.silentBytes start.frames).toInt.toNat ≤ rangeBytes start stop := by
    by_contra hends
    obtain ⟨s, hrun, -, hposition⟩ :=
      hfresh.silent (f := ⟨[], by decide⟩) hrange (by omega) silenceByte
    have hbound := (hexact _ _ s hrun).position
    omega
  have hfits : rangeBytes start stop <
      (found.silentBytes start.frames).toInt.toNat + 2 ^ 31 := by
    by_contra hfits
    obtain ⟨s, hrun, hcompleted⟩ := hfresh.jump (f := ⟨[], by decide⟩) (by omega) hint hseek
    have hbound := (hexact _ _ s hrun).completed _ hcompleted
    omega
  have hwrap : rangeBytes start stop ≤
      (found.silentBytes start.frames).toInt + 2 ^ 31 + 1 := by
    by_contra hwrap
    obtain ⟨acts, s, hrun, hposition⟩ := hfresh.wrap (f := ⟨[], by decide⟩) (by omega) (by omega)
      (by omega) (by omega)
    have hbound := (hexact _ _ s hrun).position
    omega
  obtain ⟨first, hfirst⟩ : ∃ first, found.playOffset start.frames +
      (found.silentBytes start.frames).toInt.toNat - (found.silentBytes start.frames).toNat =
        first := ⟨_, rfl⟩
  -- what is heard first of the data, and what the range has there
  have hdata (hmore : (found.silentBytes start.frames).toInt.toNat < rangeBytes start stop)
      (n : Nat) (hn : n + 1 < 2 ^ 63) :
      (cs.tracks i).rangeByte (lastByteFile silenceByte n hn) silenceByte start.frames.toNat
          (rangeBytes start stop) (found.silentBytes start.frames).toInt.toNat =
        if first = n then silenceByte + 1 else silenceByte := by
    obtain ⟨s, hrun, hheard⟩ := hfresh.firstData (f := lastByteFile silenceByte n hn) hmore hfits
      hint hseek
    have hget := (hexact _ _ s hrun).get (k := (found.silentBytes start.frames).toInt.toNat)
      (by simp [hheard])
    rw [← hget, hheard, ← lastByteFile_getD n hn, ← hfirst]
    simp
  have hsilence : (found.silentBytes start.frames).toInt.toNat =
      min ((cs.tracks i).pregapLeft start.frames.toNat) (rangeBytes start stop) := by
    rcases Nat.lt_trichotomy (found.silentBytes start.frames).toInt.toNat
        (min ((cs.tracks i).pregapLeft start.frames.toNat) (rangeBytes start stop)) with
      hshort | hsilence | hlong
    · have hbyte := hdata (by omega) first (by omega)
      rw [if_pos rfl, Track.rangeByte, if_pos (by omega)] at hbyte
      exact absurd hbyte.symm (add_one_ne silenceByte)
    · exact hsilence
    · obtain ⟨s, hrun, hheard, -⟩ := hfresh.silent
        (f := lastByteFile silenceByte ((cs.tracks i).dataStart start.frames.toNat) (by omega))
        hrange (by omega) silenceByte
      have hget := (hexact _ _ s hrun).get (k := (cs.tracks i).pregapLeft start.frames.toNat)
        (by rw [hheard, List.length_replicate]; omega)
      rw [Track.rangeByte, if_neg (by omega), Nat.sub_self, lastByteFile_getD,
        if_pos (Nat.add_zero _), hheard, List.getD_replicate _ (by omega)] at hget
      exact absurd hget.symm (add_one_ne silenceByte)
  refine hsame ⟨by omega, hfits, hwrap, hsilence, fun hmore => ?_⟩
  have hbyte := hdata hmore first (by omega)
  rw [if_pos rfl, Track.rangeByte, if_neg (by omega), lastByteFile_getD] at hbyte
  split at hbyte
  next hplace => omega
  next => exact absurd hbyte.symm (add_one_ne silenceByte)

def pregapTrack : List Byte :=
  ascii "FILE \"a\" BINARY\nTRACK 01 AUDIO\nPREGAP 00:00:02\nINDEX 01 00:00:00\n"

def frameTime (f : Byte) : DiscTime := ⟨0, 0, f⟩

theorem pregapTrack_loads :
    ∃ cs, loadCueSheet (ascii ".") pregapTrack (fun _ => some 23520) = .ok cs ∧ cs.tcnt = 1 ∧
      positionToTrack cs (frameTime 0).frames = 0 ∧
      (cs.tracks 0).start = 0 ∧ (cs.tracks 0).length = 12 ∧
      (cs.tracks 0).silentBytes (frameTime 0).frames = 4704 ∧
      (cs.tracks 0).playOffset (frameTime 0).frames = 0 ∧
      (cs.tracks 0).pregapLeft (frameTime 0).frames.toNat = 4704 ∧
      (cs.tracks 0).dataStart (frameTime 0).frames.toNat = 0 := by
  have hlayout : (loadCueSheet (ascii ".") pregapTrack fun _ => some 23520).map
      (fun cs => (cs.tcnt, positionToTrack cs (frameTime 0).frames, (cs.tracks 0).start,
        (cs.tracks 0).length)) = .ok (1, 0, 0, 12) := by
    decide +kernel
  have hstream : (loadCueSheet (ascii ".") pregapTrack fun _ => some 23520).map
      (fun cs => ((cs.tracks 0).silentBytes (frameTime 0).frames,
        (cs.tracks 0).playOffset (frameTime 0).frames,
        (cs.tracks 0).pregapLeft (frameTime 0).frames.toNat,
        (cs.tracks 0).dataStart (frameTime 0).frames.toNat)) = .ok (4704, 0, 4704, 0) := by
    decide +kernel
  cases hload : loadCueSheet (ascii ".") pregapTrack fun _ => some 23520 with
  | error e =>
    rw [hload] at hlayout
    cases hlayout
  | ok cs =>
    rw [hload] at hlayout hstream
    have hlayout := Except.ok.inj hlayout
    have hstream := Except.ok.inj hstream
    simp only [Prod.mk.injEq] at hlayout hstream
    obtain ⟨htcnt, htrack, hstart, hlength⟩ := hlayout
    exact ⟨cs, rfl, htcnt, htrack, hstart, hlength, hstream⟩

end SheepShear.Cd
