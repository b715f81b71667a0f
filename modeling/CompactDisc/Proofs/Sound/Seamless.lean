import CompactDisc.Proofs.Sound.Separate

/-!
# CompactDisc.Proofs.Sound.Seamless

**Tracks behind each other in a file.** What is played for a sector is what is stored for it only as
long as bytes and sectors count alike from track to track: no pregap comes between two tracks, since
its sectors are not in the file, and the sectors of both have 2352 bytes. A request that finds the
tracks so, and no data before its end, is `Track.Seamless`.

Proof shape: a passage that is in step with a track is in step with the next one of the file
(`Row.step_start`). So, by induction on the tracks behind its first, the tracks that are not to be
heard lie behind the end of the request (`Row.clear`), and a file that runs dry before does so with
its last track (`Row.ends_by`).
-/

namespace CompactDisc

namespace Track

/-- What is stored from a byte on and played for a sector is in step with a track of the file. -/
def InStep (t : Track) (byte sector : Nat) : Prop :=
  t.skip + sector * 2352 = byte + t.start * 2352

/-- Two neighbours on a disc, as far as a request between two sectors plays across the end of the
first within a file: the second is stored where its sectors say, and is not data that the request
reaches. -/
def Seamless (start stop : Nat) (t u : Track) : Prop :=
  t.sharesSource u = true → t.isData = false → start < t.endSector → t.endSector < stop →
    u.skip = t.skip + (u.start - t.start) * 2352 ∧ (u.isData = true → stop ≤ u.start)

/-- The tracks of a disc from one of them to the lead-out. -/
structure Row (ts : List Track) : Prop where
  chain : ts.IsChain Before
  ids : ts.Pairwise fun t u => ∀ s ∈ t.source, ∀ s' ∈ u.source, s = s' ∨ s.id < s'.id
  sourced : ∀ t ∈ ts.dropLast, t.source.isSome = true
  closed : ∀ out ∈ ts.getLast?, out.source = none
  sized : ∀ t ∈ ts, t.source.isSome = true → t.isData = false → t.sectorSize = 2352

theorem sharesSource_of_source {t u : Track} {s : Source} (ht : t.source = some s)
    (hu : u.source = some s) : t.sharesSource u = true := by
  unfold sharesSource
  rw [ht, hu]
  exact beq_self_eq_true _

namespace Row

variable {t u v : Track} {before after rest : List Track} {s : Source}
  {start stop byte sector size : Nat}

theorem suffix (h : Row (before ++ t :: after)) : Row (t :: after) where
  chain := (List.isChain_append.mp h.chain).2.1
  ids := (List.pairwise_append.mp h.ids).2.1
  sourced w hw := by
    refine h.sourced w ?_
    rw [List.dropLast_append_of_ne_nil (List.cons_ne_nil _ _)]
    exact List.mem_append_right _ hw
  closed out hout := by
    refine h.closed out ?_
    rw [List.getLast?_append, Option.mem_def.mp hout]
    rfl
  sized w hw := h.sized w (List.mem_append_right _ hw)

theorem tail (h : Row (t :: v :: rest)) : Row (v :: rest) :=
  suffix (show Row ([t] ++ v :: rest) from h)

/-- The tracks of a file stand together. -/
theorem next_source (h : Row (t :: v :: rest)) (ht : t.source = some s) (hu : u ∈ v :: rest)
    (hus : u.source = some s) : v.source = some s := by
  rcases List.mem_cons.mp hu with rfl | hlater
  · exact hus
  · have hv : v.source.isSome = true := by
      refine h.sourced v ?_
      rw [List.dropLast_cons_of_ne_nil (List.cons_ne_nil _ _),
        List.dropLast_cons_of_ne_nil (List.ne_nil_of_mem hlater)]
      simp
    obtain ⟨s', hs'⟩ := Option.isSome_iff_exists.mp hv
    have hids := List.pairwise_cons.mp h.ids
    rcases hids.1 v List.mem_cons_self s ht s' hs' with rfl | hlt
    · exact hs'
    · rcases List.rel_of_pairwise_cons hids.2 hlater s' hs' s hus with rfl | hgt
      · exact hs'
      · omega

theorem source_of_shares (h : Row (t :: after)) (ht : t.source = some s) (hu : u ∈ after)
    (hshare : t.sharesSource u = true) : u.source = some s :=
  Track.source_of_shares (List.rel_of_pairwise_cons h.ids hu) ht hshare

/-- The bytes of a track end before those of a later track of its file. -/
theorem bytes_le_skip (h : Row (t :: after)) (ht : t.source = some s) (hu : u ∈ after)
    (hus : u.source = some s) : t.skip + t.length * t.sectorSize ≤ u.skip := by
  induction after generalizing t with
  | nil => cases hu
  | cons v rest ih =>
      have hv := h.next_source ht hu hus
      have hwithin := (List.isChain_cons_cons.mp h.chain).1.within (sharesSource_of_source ht hv)
      rcases List.mem_cons.mp hu with rfl | hlater
      · exact hwithin
      · have hrest := ih h.tail hv hlater
        omega

theorem step_start (hbefore : t.Before v) (hstep : t.InStep byte sector)
    (hskip : v.skip = t.skip + (v.start - t.start) * 2352) : v.InStep byte sector := by
  have hstart := hbefore.start
  unfold endSector at hstart
  unfold InStep at hstep ⊢
  omega

/-- **Tracks that are not to be heard** are stored behind the end of the request. -/
theorem clear (h : Row (t :: after)) (hseamless : (t :: after).IsChain (Seamless start stop))
    (ht : t.source = some s) (hsound : t.isData = false) (hstart : start < t.endSector)
    (hstep : t.InStep byte sector) (hu : u ∈ after) (hus : u.source = some s)
    (hsilent : u.isData = true ∨ stop ≤ u.start) :
    byte + stop * 2352 ≤ u.skip + sector * 2352 := by
  induction after generalizing t with
  | nil => cases hu
  | cons v rest ih =>
      obtain ⟨hcross, hrest⟩ := List.isChain_cons_cons.mp hseamless
      have hbefore := (List.isChain_cons_cons.mp h.chain).1
      have hsize := h.sized t List.mem_cons_self (by rw [ht]; rfl) hsound
      have hv := h.next_source ht hu hus
      rcases Nat.lt_or_ge t.endSector stop with hon | hdone
      · -- the request goes on behind the track, in step with the next one
        obtain ⟨hskip, hdata⟩ := hcross (sharesSource_of_source ht hv) hsound hstart hon
        have hnext := step_start hbefore hstep hskip
        have hlater : t.endSector ≤ v.start := hbefore.start
        by_cases hreached : v.start < stop
        · -- the next track is to be heard, so this is about one behind it
          have hheard : v.isData = false := by
            cases hv' : v.isData with
            | false => rfl
            | true => exact absurd (hdata hv') (Nat.not_le.mpr hreached)
          rcases List.mem_cons.mp hu with rfl | hu
          · rcases hsilent with hsilent | hsilent
            · rw [hheard] at hsilent
              cases hsilent
            · omega
          · refine ih h.tail hrest hv hheard ?_ hnext hu
            exact Nat.lt_of_lt_of_le hstart (Nat.le_trans hlater (Nat.le_add_right _ _))
        · have hbehind : v.skip ≤ u.skip := by
            rcases List.mem_cons.mp hu with rfl | hu
            · exact Nat.le_refl _
            · exact Nat.le_trans (Nat.le_add_right _ _) (h.tail.bytes_le_skip hv hu hus)
          unfold InStep at hnext
          omega
      · -- the request ends with the track or before
        have hbehind := h.bytes_le_skip ht hu hus
        rw [hsize] at hbehind
        unfold InStep at hstep
        unfold endSector at hdone
        omega

/-- **A file that runs dry** before the end of the request does so with its last track. -/
theorem ends_by (h : Row (t :: after)) (hseamless : (t :: after).IsChain (Seamless start stop))
    (ht : t.source = some s) (hsound : t.isData = false) (hstart : start < t.endSector)
    (hstep : t.InStep byte sector) (htotal : s.length = some size)
    (hin : ∀ w ∈ t :: after, w.source = some s → w.skip ≤ size) (hbyte : byte ≤ size)
    (hdry : size + sector * 2352 < byte + stop * 2352) :
    ∀ w ∈ t :: after, w.source = some s →
      w.endSector ≤ sector + divUp (size - byte) 2352 := by
  induction after generalizing t with
  | nil =>
      have hnone := h.closed t rfl
      rw [ht] at hnone
      cases hnone
  | cons v rest ih =>
      obtain ⟨hcross, hrest⟩ := List.isChain_cons_cons.mp hseamless
      have hbefore := (List.isChain_cons_cons.mp h.chain).1
      have hsize := h.sized t List.mem_cons_self (by rw [ht]; rfl) hsound
      cases hshare : t.sharesSource v with
      | false =>
          -- the last track of the file has all of its rest
          obtain ⟨total, hwhole, hskip, hlength⟩ := hbefore.whole hshare
          rw [ht, Option.bind_some, htotal] at hwhole
          cases hwhole
          have hends := passage_end hsize hskip hlength hbyte hstep
          intro w hw hws
          rcases List.mem_cons.mp hw with rfl | hw
          · exact Nat.le_of_eq hends.symm
          · have hv := h.next_source ht hw hws
            rw [sharesSource_of_source ht hv] at hshare
            cases hshare
      | true =>
          have hv := h.source_of_shares ht List.mem_cons_self hshare
          have hinside := hin v (List.mem_cons_of_mem _ List.mem_cons_self) hv
          have hwithin := h.bytes_le_skip ht List.mem_cons_self hv
          rw [hsize] at hwithin
          have hon : t.endSector < stop := by
            unfold InStep at hstep
            unfold endSector
            omega
          obtain ⟨hskip, hdata⟩ := hcross hshare hsound hstart hon
          have hnext := step_start hbefore hstep hskip
          have hlater : t.endSector ≤ v.start := hbefore.start
          have hheard : v.isData = false := by
            cases hv' : v.isData with
            | false => rfl
            | true =>
                have hlate := hdata hv'
                unfold InStep at hnext
                omega
          have hends := ih h.tail hrest hv hheard
            (Nat.lt_of_lt_of_le hstart (Nat.le_trans hlater (Nat.le_add_right _ _))) hnext
            fun w hw => hin w (List.mem_cons_of_mem _ hw)
          intro w hw hws
          rcases List.mem_cons.mp hw with rfl | hw
          · have hlast := hends v List.mem_cons_self hv
            unfold endSector at hlast hlater ⊢
            omega
          · exact hends w hw hws

end Row

end Track

end CompactDisc
