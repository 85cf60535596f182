import LinuxOS.Foundation.Transition
import LinuxOS.Kernel.Boot
import LinuxOS.Kernel.Lib
import LinuxOS.Kernel.Rtc

/-!
# The rate of the real-time clock

`rtc_write` takes powers of two only, so that `virt_freq` always divides 1024
and `rtc_read` waits for a whole number of interrupts.
-/

namespace LinuxOS

open Foundation

/-! ## Rates -/

def ValidRate (word : UInt32) : Prop := ∃ k, 1 ≤ k ∧ k ≤ 10 ∧ word.toNat = 2 ^ k

theorem validRate_iff (word : UInt32) :
    ValidRate word ↔ word ≤ 1024 ∧ word ≥ 2 ∧ word &&& (word - 1) = 0 := by
  have hlow : (2 : UInt32).toNat = 2 := rfl
  have hhigh : (1024 : UInt32).toNat = 1024 := rfl
  rw [ge_iff_le, UInt32.le_iff_toNat_le, UInt32.le_iff_toNat_le, hlow, hhigh]
  -- `word & (word - 1)` clears the lowest bit that is set
  have htrick : 2 ≤ word.toNat → (word &&& (word - 1) = 0 ↔ word.toNat.isPowerOfTwo) := by
    intro htwo
    have hpred : (word - 1).toNat = word.toNat - 1 :=
      UInt32.toNat_sub_of_le _ _ (UInt32.le_iff_toNat_le.mpr (by
        rw [UInt32.toNat_one]
        omega))
    rw [← UInt32.toNat_inj, UInt32.toNat_and, hpred, UInt32.toNat_zero,
      Nat.and_sub_one_eq_zero_iff_isPowerOfTwo (by omega)]
  constructor
  · rintro ⟨k, hk, hk', hword⟩
    have htwo : 2 ^ 1 ≤ 2 ^ k := Nat.pow_le_pow_right (by decide) hk
    have hbound : 2 ^ k ≤ 2 ^ 10 := Nat.pow_le_pow_right (by decide) hk'
    rw [← hword] at htwo hbound
    exact ⟨hbound, htwo, (htrick htwo).mpr ⟨k, hword⟩⟩
  · rintro ⟨hbound, htwo, hbits⟩
    obtain ⟨k, hword⟩ := (htrick htwo).mp hbits
    rw [hword] at hbound htwo
    refine ⟨k, ?_, ?_, hword⟩
    · by_contra hzero
      rw [Nat.lt_one_iff.mp (not_le.mp hzero)] at htwo
      exact absurd htwo (by decide)
    · exact (Nat.pow_le_pow_iff_right (by decide : 1 < 2)).mp (hbound : 2 ^ k ≤ 2 ^ 10)

structure RateWritten (word nbytes : UInt32) (kernel : Kernel) : Prop where
  result : (rtcWrite word nbytes kernel).2 = 0 ↔ nbytes = 4 ∧ ValidRate word
  accepted : (rtcWrite word nbytes kernel).2 = 0 →
    (rtcWrite word nbytes kernel).1.virtFreq = word
  refused : (rtcWrite word nbytes kernel).2 ≠ 0 → rtcWrite word nbytes kernel = (kernel, -1)

theorem rtcWrite_cases (word nbytes : UInt32) (kernel : Kernel) :
    (nbytes = 4 ∧ ValidRate word ∧ rtcWrite word nbytes kernel =
        ({ kernel with rtcInterCount := 0, virtFreq := word }, 0)) ∨
      (¬ (nbytes = 4 ∧ ValidRate word) ∧ rtcWrite word nbytes kernel = (kernel, -1)) := by
  have hcases := validRate_iff word
  unfold rtcWrite
  by_cases hbytes : nbytes = 4
  · rw [if_neg (not_not.mpr hbytes)]
    by_cases hvalid : ValidRate word
    · exact .inl ⟨hbytes, hvalid, if_pos (hcases.mp hvalid)⟩
    · exact .inr ⟨fun h => hvalid h.2, if_neg fun h => hvalid (hcases.mpr h)⟩
  · exact .inr ⟨fun h => hbytes h.1, if_pos hbytes⟩

theorem rateWritten (word nbytes : UInt32) (kernel : Kernel) : RateWritten word nbytes kernel := by
  have hfailed : (-1 : Int32) ≠ 0 := by decide
  rcases rtcWrite_cases word nbytes kernel with ⟨hbytes, hvalid, hwrite⟩ | ⟨hrefused, hwrite⟩
  · constructor <;> rw [hwrite]
    · exact iff_of_true rfl ⟨hbytes, hvalid⟩
    · exact fun _ => rfl
    · exact fun h => absurd rfl h
  · constructor <;> rw [hwrite]
    · exact iff_of_false hfailed hrefused
    · exact fun h => absurd h hfailed
    · exact fun _ => rfl

theorem ValidRate.dvd {word : UInt32} (h : ValidRate word) : word.toNat ∣ 1024 := by
  obtain ⟨k, -, hk, hword⟩ := h
  rw [hword]
  exact Nat.pow_dvd_pow 2 hk

theorem ValidRate.ne_zero {word : UInt32} (h : ValidRate word) : word ≠ 0 := by
  rintro rfl
  obtain ⟨k, -, -, hword⟩ := h
  exact absurd hword.symm (Nat.pow_pos (by decide)).ne'

/-! ## Opens, writes and interrupts after `rtc_init` -/

inductive RtcOp where
  | openRtc
  | writeRtc (word nbytes : UInt32)
  | interrupt

def RtcOp.perform (kernel : Kernel) : RtcOp → Kernel
  | .openRtc => rtcOpen kernel
  | .writeRtc word nbytes => (rtcWrite word nbytes kernel).1
  | .interrupt => rtcHandler kernel

theorem validRate_perform {kernel : Kernel} (h : ValidRate kernel.virtFreq) (op : RtcOp) :
    ValidRate (op.perform kernel).virtFreq := by
  cases op with
  | openRtc => exact ⟨1, by decide, by decide, rfl⟩
  | writeRtc word nbytes =>
      have hwritten := rateWritten word nbytes kernel
      by_cases hresult : (rtcWrite word nbytes kernel).2 = 0
      · rw [RtcOp.perform, hwritten.accepted hresult]
        exact (hwritten.result.mp hresult).2
      · rw [RtcOp.perform, hwritten.refused hresult]
        exact h
  | interrupt => exact h

def rtcAfter (ops : List RtcOp) (kernel : Kernel) : Kernel :=
  ops.foldl RtcOp.perform (rtcInit kernel)

theorem validRate_rtcAfter (ops : List RtcOp) (kernel : Kernel) :
    ValidRate (rtcAfter ops kernel).virtFreq := by
  have hkeeps : ∀ start : Kernel, ValidRate start.virtFreq →
      ValidRate (ops.foldl RtcOp.perform start).virtFreq := by
    induction ops with
    | nil => exact fun _ hstart => hstart
    | cons op ops ih => exact fun start hstart => ih _ (validRate_perform hstart op)
  exact hkeeps (rtcInit kernel) ⟨1, by decide, by decide, rfl⟩

/-! ## Reads -/

theorem returns_iff_rtcRead (count : UInt32) (kernel : Kernel) :
    RtcReadEvent.proceed.perform ⟨kernel, .loaded count⟩ = some ⟨kernel, .returned⟩ ↔
      (rtcRead count kernel).isSome := by
  simp only [RtcReadEvent.perform, rtcRead]
  split
  · simp
  split <;> simp

/-- After `interrupts` interrupts the reader has counted no more than that. -/
def Counted (interrupts : Nat) (reading : RtcReading) : Prop :=
  match reading.reader with
  | .entered => True
  | .testing => reading.kernel.rtcInterCount.toNat ≤ interrupts
  | .loaded count =>
      reading.kernel.rtcInterCount.toNat ≤ interrupts ∧ count.toNat ≤ interrupts
  | .returned => 1024 / reading.kernel.virtFreq.toNat ≤ interrupts

def RtcReadEvent.ticks : RtcReadEvent → Nat
  | .interrupt => 1
  | .proceed => 0

theorem toNat_succ_le (count : UInt32) : (count + 1).toNat ≤ count.toNat + 1 := by
  rw [UInt32.toNat_add, UInt32.toNat_one]
  exact Nat.mod_le _ _

theorem Counted.perform {interrupts : Nat} {event : RtcReadEvent} {reading next : RtcReading}
    (h : Counted interrupts reading) (hstep : event.perform reading = some next) :
    Counted (interrupts + event.ticks) next ∧
      next.kernel.virtFreq = reading.kernel.virtFreq := by
  obtain ⟨kernel, reader⟩ := reading
  cases event with
  | interrupt =>
      cases hstep
      refine ⟨?_, rfl⟩
      have hcount : (rtcHandler kernel).rtcInterCount.toNat ≤ kernel.rtcInterCount.toNat + 1 :=
        toNat_succ_le _
      cases reader with
      | entered => trivial
      | testing => exact hcount.trans (Nat.add_le_add_right h 1)
      | loaded count =>
          exact ⟨hcount.trans (Nat.add_le_add_right h.1 1), h.2.trans (Nat.le_succ _)⟩
      | returned => exact Nat.le_succ_of_le h
  | proceed =>
      cases reader with
      | entered =>
          cases hstep
          exact ⟨Nat.zero_le _, rfl⟩
      | testing =>
          cases hstep
          exact ⟨⟨h, h⟩, rfl⟩
      | loaded count =>
          simp only [RtcReadEvent.perform] at hstep
          -- a `virt_freq` of 0 has no next step; else the loop goes on or ends
          split at hstep
          · cases hstep
          split at hstep
          · cases hstep
            exact ⟨h.1, rfl⟩
          · next hdone =>
              cases hstep
              have henough : (1024 / kernel.virtFreq).toNat ≤ count.toNat :=
                UInt32.le_iff_toNat_le.mp (UInt32.not_lt.mp hdone)
              rw [UInt32.toNat_div] at henough
              exact ⟨henough.trans h.2, rfl⟩
      | returned =>
          cases hstep
          exact ⟨h, rfl⟩

theorem Counted.run {interrupts : Nat} {events : List RtcReadEvent} {reading final : RtcReading}
    (h : Counted interrupts reading)
    (hrun : Foundation.run RtcReadEvent.perform events reading = some final) :
    Counted (interrupts + events.count .interrupt) final ∧
      final.kernel.virtFreq = reading.kernel.virtFreq := by
  induction events generalizing interrupts reading with
  | nil =>
      cases hrun
      exact ⟨h, rfl⟩
  | cons event events ih =>
      obtain ⟨next, hstep, hrest⟩ := run_cons_eq_some.mp hrun
      obtain ⟨hnext, hrate⟩ := h.perform hstep
      obtain ⟨hfinal, hkept⟩ := ih hnext hrest
      have hcount : interrupts + (event :: events).count .interrupt =
          interrupts + event.ticks + events.count .interrupt := by
        cases event with
        | interrupt => rw [List.count_cons_self, RtcReadEvent.ticks]; omega
        | proceed => rw [List.count_cons_of_ne (by decide), RtcReadEvent.ticks]; omega
      rw [hcount]
      exact ⟨hfinal, hkept.trans hrate⟩

theorem isSome_perform {event : RtcReadEvent} {reading : RtcReading}
    (h : reading.kernel.virtFreq ≠ 0) : (event.perform reading).isSome := by
  obtain ⟨kernel, reader⟩ := reading
  cases event with
  | interrupt => rfl
  | proceed =>
      cases reader with
      | entered => rfl
      | testing => rfl
      | loaded count =>
          simp only [RtcReadEvent.perform]
          rw [if_neg h]
          split <;> rfl
      | returned => rfl

/--
After `rtc_init` and any opens, writes and interrupts: `rtc_write` takes the
ten powers of two and nothing else, `virt_freq` divides 1024, and a read that
is interrupted by the clock alone goes on, without a division by zero, until
1024 / `virt_freq` interrupts at least have come since it began.
-/
theorem rtc_rate_law (ops : List RtcOp) (kernel : Kernel) :
    (∀ word nbytes, RateWritten word nbytes (rtcAfter ops kernel)) ∧
    (rtcAfter ops kernel).virtFreq.toNat ∣ 1024 ∧ (rtcAfter ops kernel).virtFreq ≠ 0 ∧
    ∀ events reading,
      run RtcReadEvent.perform events ⟨rtcAfter ops kernel, .entered⟩ = some reading →
        (RtcReadEvent.proceed.perform reading).isSome ∧
        (reading.reader = .returned →
          1024 / (rtcAfter ops kernel).virtFreq.toNat ≤ events.count .interrupt) := by
  have hvalid := validRate_rtcAfter ops kernel
  refine ⟨fun word nbytes => rateWritten word nbytes _, hvalid.dvd, hvalid.ne_zero,
    fun events reading hrun => ?_⟩
  have hentered : Counted 0 ⟨rtcAfter ops kernel, .entered⟩ := trivial
  obtain ⟨hcounted, hrate⟩ := hentered.run hrun
  refine ⟨isSome_perform (hrate ▸ hvalid.ne_zero), fun hreturned => ?_⟩
  rw [Counted, hreturned, hrate, Nat.zero_add] at hcounted
  exact hcounted

example : (run RtcReadEvent.perform [.proceed, .proceed, .proceed, .interrupt, .proceed, .proceed]
    ⟨rtcAfter [.writeRtc 1024 4] (bootKernel shellImage), .entered⟩).any
      (fun reading => reading.reader = .returned) = true := by
  decide

end LinuxOS
