import RvAssembler.Elf

namespace RvAssembler

open Image

/-- Something done in a context that succeeds exactly when its next `k` file operations do. -/
structure Uses (ops : FileOps) (g : OutCtx) (k : ℕ) (r : OutCtx × Bool) : Prop where
  ok : r.2 = true ↔ ∀ i < k, ops (g.ops + i) = true
  after : r.2 = true → r.1.ops = g.ops + k ∧ r.1.fp.isSome = g.fp.isSome ∧ r.1.fmt = g.fmt

theorem Uses.nothing (ops : FileOps) (g : OutCtx) : Uses ops g 0 (g, true) :=
  ⟨by simp, fun _ => ⟨rfl, rfl, rfl⟩⟩

theorem Uses.andThen {ops : FileOps} {g : OutCtx} {k m : ℕ} {r : OutCtx × Bool}
    (h : Uses ops g k r) (next : OutCtx → OutCtx × Bool)
    (hnext : r.2 = true → Uses ops r.1 m (next r.1)) :
    Uses ops g (k + m) (RvAssembler.andThen r next) := by
  -- the operations of the second action follow those of the first
  have hsplit : (∀ i < k + m, ops (g.ops + i) = true) ↔
      (∀ i < k, ops (g.ops + i) = true) ∧ ∀ i < m, ops (g.ops + k + i) = true := by
    constructor
    · exact fun h => ⟨fun i hi => h i (by omega), fun i hi => by
        rw [Nat.add_assoc]
        exact h (k + i) (by omega)⟩
    · rintro ⟨hk, hm⟩ i hi
      by_cases hik : i < k
      · exact hk i hik
      · have := hm (i - k) (by omega)
        rwa [show g.ops + k + (i - k) = g.ops + i by omega] at this
  rw [RvAssembler.andThen]
  cases hr : r.2 with
  | false =>
    have hno : ¬ ∀ i < k, ops (g.ops + i) = true := fun hall => by
      rw [h.ok.mpr hall] at hr
      cases hr
    refine ⟨?_, fun hc => by cases hc⟩
    rw [hsplit]
    exact ⟨fun hc => (by cases hc), fun hall => absurd hall.1 hno⟩
  | true =>
    obtain ⟨hops, hfp, hfmt⟩ := h.after hr
    have hn := hnext hr
    rw [if_pos rfl]
    refine ⟨?_, fun hok => ?_⟩
    · rw [hn.ok, hsplit, hops]
      exact ⟨fun hall => ⟨h.ok.mp hr, hall⟩, fun hall => hall.2⟩
    · obtain ⟨hops', hfp', hfmt'⟩ := hn.after hok
      exact ⟨by rw [hops', hops, Nat.add_assoc], hfp'.trans hfp, hfmt'.trans hfmt⟩

theorem ftello_uses (ops : FileOps) (g : OutCtx) : Uses ops g 1 (ftello ops g) :=
  ⟨by simp [ftello], fun _ => ⟨rfl, rfl, rfl⟩⟩

theorem fseeko_uses (ops : FileOps) (g : OutCtx) (off : ℕ) : Uses ops g 1 (fseeko ops g off) := by
  rw [fseeko]
  cases h : ops g.ops
  · exact ⟨by simp [h], by simp⟩
  · exact ⟨by simp [h], by simp⟩

theorem fwrite_uses (ops : FileOps) (g : OutCtx) (p : List UInt8) :
    Uses ops g 1 (fwrite ops g p) := by
  rw [fwrite]
  cases h : ops g.ops
  · exact ⟨by simp [h], by simp⟩
  · exact ⟨by simp [h], by simp⟩

theorem fwriteZeros_uses (ops : FileOps) (g : OutCtx) (n : ℕ) :
    Uses ops g ((n + 255) / 256) (fwriteZeros ops g n) := by
  fun_induction fwriteZeros ops g n with
  | case1 g => exact .nothing ops g
  | case2 g n hn chunk ih =>
    have hcount : (n + 255) / 256 = 1 + (n - chunk + 255) / 256 := by
      simp only [chunk]
      split_ifs <;> omega
    rw [hcount]
    exact (fwrite_uses ops g _).andThen _ fun _ => ih _

theorem writeAt_uses (ops : FileOps) {g : OutCtx} (hfp : g.fp.isSome = true) (off : ℕ)
    (p : List UInt8) : Uses ops g 4 (writeAt ops g off p) := by
  obtain ⟨f, hf⟩ := Option.isSome_iff_exists.mp hfp
  -- a failed write is followed by a seek as well, but fails whatever that returns
  have hwrite : ∀ g : OutCtx, Uses ops g (1 + 1)
      (if (fwrite ops g p).2 then fseeko ops (fwrite ops g p).1 f.pos
        else ((fseeko ops (fwrite ops g p).1 f.pos).1, false)) := by
    intro g
    have huse := (fwrite_uses ops g p).andThen (fun g => fseeko ops g f.pos)
      fun _ => fseeko_uses ops _ f.pos
    rw [andThen] at huse
    cases hw : (fwrite ops g p).2 with
    | false =>
      rw [hw, if_neg Bool.false_ne_true] at huse
      exact ⟨huse.ok, fun hc => by cases hc⟩
    | true => rwa [hw] at huse
  rw [writeAt, hf]
  exact (ftello_uses ops g).andThen (m := 1 + (1 + 1)) _ fun _ =>
    (fseeko_uses ops _ off).andThen _ fun _ => hwrite _

theorem writeAllAt_uses (ops : FileOps) {g : OutCtx} (hfp : g.fp.isSome = true)
    (ws : List (ℕ × List UInt8)) : Uses ops g (4 * ws.length) (writeAllAt ops g ws) := by
  induction ws generalizing g with
  | nil => exact .nothing ops g
  | cons w ws ih =>
    have hw := writeAt_uses ops hfp w.1 w.2
    rw [List.length_cons, show 4 * (ws.length + 1) = 4 + 4 * ws.length by ring]
    exact hw.andThen _ fun hok => ih (by rw [(hw.after hok).2.1, hfp])

theorem writeAt_bytes {ops : FileOps} {g : OutCtx} {f : OutFile} (hfp : g.fp = some f) {off : ℕ}
    {p : List UInt8} (h : (writeAt ops g off p).2 = true) :
    (writeAt ops g off p).1.fp = some { f with bytes := overwrite 0 f.bytes off p } := by
  have huse := (writeAt_uses ops (by rw [hfp]; rfl) off p).ok.mp h
  have h0 : ops g.ops = true := huse 0 (by decide)
  have h1 : ops (g.ops + 1) = true := huse 1 (by decide)
  have h2 : ops (g.ops + 1 + 1) = true := huse 2 (by decide)
  have h3 : ops (g.ops + 1 + 1 + 1) = true := huse 3 (by decide)
  simp [writeAt, hfp, andThen, ftello, fseeko, fwrite, h0, h1, h2, h3]

theorem writeAllAt_bytes {ops : FileOps} {ws : List (ℕ × List UInt8)} {g : OutCtx} {f : OutFile}
    (hfp : g.fp = some f) (h : (writeAllAt ops g ws).2 = true) :
    (writeAllAt ops g ws).1.fp = some { f with bytes := overwriteAll 0 f.bytes ws } := by
  induction ws generalizing g f with
  | nil => exact hfp
  | cons w ws ih =>
    rw [writeAllAt, andThen] at h ⊢
    cases hw : (writeAt ops g w.1 w.2).2 with
    | false =>
      rw [hw] at h
      cases h
    | true =>
      rw [hw, if_pos rfl] at h
      rw [if_pos rfl]
      exact ih (writeAt_bytes hfp hw) h

/-- The file operations of a call: ELF output is only collected. -/
def SinkCall.fileOps (fmt : OutFormat) : SinkCall → ℕ
  | .enter _ => 0
  | .word _ | .half _ | .value _ _ => if fmt = .raw then 1 else 0
  | .zeros n => if fmt = .raw then (n + 255) / 256 else 0

theorem sinkWrite_uses (ops : FileOps) {g : OutCtx} (hfp : g.fp.isSome = true) (p : List UInt8) :
    Uses ops g (if g.fmt = .raw then 1 else 0) (sinkWrite ops g p) := by
  cases hfmt : g.fmt with
  | raw =>
    have hnone : g.fp.isNone = false := Option.isNone_eq_false_iff.mpr hfp
    simp only [sinkWrite, hfmt, hnone, Bool.false_eq_true, ↓reduceIte]
    exact fwrite_uses ops g p
  | elf =>
    rw [sinkWrite_elf ops hfmt]
    exact ⟨by simp, fun _ => ⟨rfl, rfl, rfl⟩⟩

theorem SinkCall.run_uses (ops : FileOps) {g : OutCtx} (hfp : g.fp.isSome = true) {c : SinkCall}
    (hc : c.Sized) : Uses ops g (c.fileOps g.fmt) (c.run ops g) := by
  cases c with
  | enter s => exact ⟨by simp [SinkCall.run, SinkCall.fileOps], fun _ => ⟨rfl, rfl, rfl⟩⟩
  | word w => exact sinkWrite_uses ops hfp _
  | half h =>
    rw [SinkCall.run, writeHalfLe]
    split_ifs
    · have huse := sinkWrite_uses ops (g := { g with hasRvc := true }) hfp (Bytes.le 2 h.toNat)
      exact ⟨huse.ok, huse.after⟩
    · exact sinkWrite_uses ops hfp _
  | value v size =>
    have hsize : size = 1 ∨ size = 2 ∨ size = 4 ∨ size = 8 := hc
    rw [SinkCall.run, writeValueLe, if_neg (by omega)]
    exact sinkWrite_uses ops hfp _
  | zeros n =>
    rw [SinkCall.run, writeZeros, sinkZeros, SinkCall.fileOps]
    cases hfmt : g.fmt with
    | raw =>
      have hnone : g.fp.isNone = false := Option.isNone_eq_false_iff.mpr hfp
      simp only [hnone, Bool.false_eq_true, ↓reduceIte]
      exact fwriteZeros_uses ops g n
    | elf =>
      simp only [reduceCtorEq, ↓reduceIte]
      split <;> exact ⟨by simp, fun _ => ⟨rfl, rfl, hfmt.symm⟩⟩

theorem sinkCalls_uses (ops : FileOps) {g : OutCtx} (hfp : g.fp.isSome = true)
    {calls : List SinkCall} (hc : ∀ c ∈ calls, c.Sized) :
    Uses ops g (calls.map (SinkCall.fileOps g.fmt)).sum
      (runSinkCalls ops g calls, sinkCallsOk ops g calls) := by
  induction calls generalizing g with
  | nil => exact .nothing ops g
  | cons c cs ih =>
    obtain ⟨hhead, htail⟩ := List.forall_mem_cons.mp hc
    have huse := SinkCall.run_uses ops hfp hhead
    have hrest : (c.run ops g).2 = true →
        Uses ops (c.run ops g).1 (cs.map (SinkCall.fileOps g.fmt)).sum
          (runSinkCalls ops (c.run ops g).1 cs, sinkCallsOk ops (c.run ops g).1 cs) := by
      intro hok
      obtain ⟨-, hfp', hfmt⟩ := huse.after hok
      rw [← hfmt]
      exact ih (hfp'.trans hfp) htail
    have hboth := huse.andThen (fun g => (runSinkCalls ops g cs, sinkCallsOk ops g cs)) hrest
    rw [andThen] at hboth
    rw [List.map_cons, List.sum_cons, sinkCallsOk,
      show runSinkCalls ops g (c :: cs) = runSinkCalls ops (c.run ops g).1 cs from rfl]
    cases hok : (c.run ops g).2 with
    | true => simpa only [hok, ↓reduceIte, Bool.true_and] using hboth
    | false =>
      simp only [hok, Bool.false_eq_true, ↓reduceIte] at hboth
      exact ⟨hboth.ok, fun hc => by cases hc⟩

def finishOps (g : OutCtx) (entryAddr : ℕ) : ℕ :=
  match g.fmt with
  | .raw => 0
  | .elf => 4 * (elfWrites g entryAddr).length

theorem outFinish_uses (ops : FileOps) {g : OutCtx} (hfp : g.fp.isSome = true) (entryAddr : ℕ) :
    Uses ops g (finishOps g entryAddr) (outFinish ops g entryAddr) := by
  rw [outFinish, finishOps]
  cases hfmt : g.fmt with
  | raw => exact ⟨by simp [hfp], fun _ => ⟨rfl, rfl, rfl⟩⟩
  | elf =>
    have hnone : g.fp.isNone = false := Option.isNone_eq_false_iff.mpr hfp
    simp only [hnone, Bool.false_eq_true, ↓reduceIte]
    exact writeAllAt_uses ops hfp _

def outputOps (g : OutCtx) (calls : List SinkCall) (entryAddr : ℕ) : ℕ :=
  (calls.map (SinkCall.fileOps g.fmt)).sum + finishOps (runSinkCalls allOps g calls) entryAddr

/-- A whole output succeeds exactly when all its file operations do. -/
theorem output_ok_iff (ops : FileOps) {g : OutCtx} (hfp : g.fp.isSome = true)
    {calls : List SinkCall} (hc : ∀ c ∈ calls, c.Sized) (entryAddr : ℕ) :
    (sinkCallsOk ops g calls = true ∧
        (outFinish ops (runSinkCalls ops g calls) entryAddr).2 = true) ↔
      ∀ i < outputOps g calls entryAddr, ops (g.ops + i) = true := by
  have hcalls := sinkCalls_uses ops hfp hc
  have hsame : sinkCallsOk ops g calls = true → finishOps (runSinkCalls allOps g calls) entryAddr =
      finishOps (runSinkCalls ops g calls) entryAddr := by
    intro hok
    cases hfmt : g.fmt with
    | raw =>
      have hall := sinkCalls_uses allOps hfp hc
      have hraw := (hcalls.after hok).2.2.trans hfmt
      have hraw' := (hall.after (hall.ok.mpr fun _ _ => rfl)).2.2.trans hfmt
      simp only at hraw hraw'
      simp only [finishOps, hraw, hraw']
    | elf => rw [runSinkCalls_elf _ _ _ hfmt, runSinkCalls_elf _ _ _ hfmt]
  have hboth := hcalls.andThen (m := finishOps (runSinkCalls allOps g calls) entryAddr)
    (fun g => outFinish ops g entryAddr) fun hok => by
      rw [hsame hok]
      exact outFinish_uses ops ((hcalls.after hok).2.1.trans hfp) entryAddr
  rw [outputOps, ← hboth.ok, andThen]
  cases sinkCallsOk ops g calls <;> simp

end RvAssembler
