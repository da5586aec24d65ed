import JamSched.Data.LogManager

/-!
# Delivery of the log entries

An observer of the log manager notes the entries in the order in which `LogRaw` put them into the
buffer, and which of them came before `ShutDown`. What was noted is at all times what was sent,
what the logger holds and what the buffer holds. When the logger has returned, the early entries
were all sent unless `ShutDown` came with entries in the buffer while the logger was on its way to
the test of its outer loop.
-/
namespace JamSched.Data

open Machine

/-- The test of `toContinue` that comes next is that of the outer loop, or none comes. -/
def LoggerPc.leaving : LoggerPc → Bool
  | .start | .head | .sending | .eventLoop | .returned => true
  | .enter | .test | .parking | .blocked | .notified => false

namespace LogManager

/-- The notes of the observer. -/
structure Accepted where
  all : List LogStreamObject := []
  /-- The entries that came before `ShutDown`. -/
  early : List LogStreamObject := []
  deriving DecidableEq, Repr

def Accepted.follow (a : Accepted) (s : LogManager) : Label → Accepted
  | .push lobj =>
    { all := a.all ++ [lobj], early := if s.toContinue then a.all ++ [lobj] else a.early }
  | _ => a

def deliveryStep : LogManager × Accepted → Label → Option (LogManager × Accepted) :=
  observe step Accepted.follow

/-- The entries are sent in the order in which they were accepted, each of them at most once, and
no early one is missing. -/
def Delivered (x : LogManager × Accepted) : Prop :=
  x.1.sent <+: x.2.all ∧ x.2.early <+: x.1.sent

/-- `ShutDown` does not come with entries in the buffer while the logger is leaving. -/
def KeepsEntries (s : LogManager) : Label → Prop
  | .shutDown =>
    s.toContinue = true → s.logger.leaving = true → s.asyncBufferEncoded = []
  | _ => True

instance (x : LogManager × Accepted) : Decidable (Delivered x) :=
  inferInstanceAs (Decidable (_ ∧ _))

instance (s : LogManager) (l : Label) : Decidable (s.KeepsEntries l) :=
  match l with
  | .shutDown => inferInstanceAs (Decidable (_ → _ → _))
  | .logRaw .. | .push _ | .logger | .stopLoggerMainLoop | .connect _ => isTrue trivial

/-- No entry is lost or doubled between the buffer, the logger and the server. -/
structure Conserved (x : LogManager × Accepted) : Prop where
  all : x.2.all = x.1.sent ++ x.1.localBuffer ++ x.1.asyncBufferEncoded
  early : x.2.early <+: x.2.all
  running : x.1.toContinue = true → x.2.early = x.2.all
  localBuffer : x.1.logger ≠ .sending → x.1.localBuffer = []
  returned : x.1.logger = .returned → x.1.toContinue = false

/-- Once the scheduler has stopped, a leaving logger has, or has sent, every early entry. -/
def Kept (x : LogManager × Accepted) : Prop :=
  x.1.toContinue = false → x.1.logger.leaving = true →
    x.2.early.length ≤ x.1.sent.length + x.1.localBuffer.length

variable {x y : LogManager × Accepted} {l : Label}

theorem conserved_initial : Conserved (initial, {}) := by
  constructor <;> simp [initial]

theorem notifyOne_eq (s : LogManager) : s.notifyOne =
    { s with logger := if s.logger = .blocked then .notified else s.logger } := by
  unfold notifyOne
  split <;> rfl

/-- The critical section of `LogRaw`: one more entry, and the logger may be notified. -/
theorem pushBack_eq (s : LogManager) (lobj : LogStreamObject) : ∃ logger,
    logger.leaving = s.logger.leaving ∧ (logger = .sending ↔ s.logger = .sending) ∧
      (logger = .returned ↔ s.logger = .returned) ∧
      s.pushBack lobj = { s with
        calls := s.calls.erase lobj, asyncBufferEncoded := s.asyncBufferEncoded ++ [lobj],
        logger } := by
  unfold pushBack
  simp only [notifyOne_eq]
  split
  · refine ⟨_, ?_, ?_, ?_, rfl⟩ <;> split <;> simp_all [LoggerPc.leaving]
  · exact ⟨s.logger, rfl, Iff.rfl, Iff.rfl, rfl⟩

/-- What a step of the logger does to the entries. -/
theorem loggerStep_cases {s t : LogManager} (h : s.loggerStep = some t) :
    (∃ logger, t = { s with logger } ∧ s.logger ≠ .test ∧
      (s.logger = .sending → s.localBuffer = []) ∧ logger ≠ .sending ∧
      (logger = .returned → s.toContinue = false) ∧
      (s.toContinue = false → logger.leaving = s.logger.leaving)) ∨
    (t = { s with logger := .parking } ∧ s.logger = .test ∧ s.toContinue = true) ∨
    (s.logger = .test ∧ t = { s with
      localBuffer := s.asyncBufferEncoded, asyncBufferEncoded := [], logger := .sending }) ∨
    (∃ lobj localBuffer, s.logger = .sending ∧ s.localBuffer = lobj :: localBuffer ∧
      t = { s with localBuffer, sent := s.sent ++ [lobj] }) := by
  cases hpc : s.logger with
  | test =>
    simp only [loggerStep, hpc] at h
    split at h
    · next hcond =>
      cases h
      exact .inr (.inl ⟨rfl, rfl, by grind⟩)
    · cases h
      exact .inr (.inr (.inl ⟨rfl, rfl⟩))
  | sending =>
    simp only [loggerStep, hpc] at h
    split at h
    · next hnil =>
      cases h
      exact .inl ⟨.eventLoop, rfl, by simp, fun _ => hnil, by simp, by simp, fun _ => rfl⟩
    · next lobj localBuffer hcons =>
      cases h
      exact .inr (.inr (.inr ⟨lobj, localBuffer, rfl, hcons, rfl⟩))
  | head =>
    simp only [loggerStep, hpc, Option.some.injEq] at h
    subst h
    refine .inl ⟨_, rfl, by simp, by simp, ?_, ?_, ?_⟩ <;>
      cases s.toContinue <;> simp [LoggerPc.leaving]
  | start | enter | notified | parking | eventLoop =>
    simp only [loggerStep, hpc, Option.some.injEq] at h
    subst h
    exact .inl ⟨_, rfl, by simp, by simp, by simp, by simp, fun _ => rfl⟩
  | blocked | returned => simp [loggerStep, hpc] at h

/-- A step of the log manager beside the observer. -/
theorem deliveryStep_cases (hy : deliveryStep x l = some y) :
    (∃ calls mainFogInfo, y = ({ x.1 with calls, mainFogInfo }, x.2) ∧ l ≠ .shutDown) ∨
    (l = .stopLoggerMainLoop ∧ y = (x.1.notifyOne, x.2)) ∨
    (∃ lobj, l = .push lobj ∧ y = (x.1.pushBack lobj, x.2.follow x.1 l)) ∨
    (l = .logger ∧ ∃ t, x.1.loggerStep = some t ∧ y = (t, x.2)) ∨
    (l = .shutDown ∧ y = ({ x.1 with toContinue := false }, x.2)) := by
  obtain ⟨t, ht, rfl⟩ := observe_eq_some.mp hy
  cases l with
  | logRaw =>
    simp only [LogManager.step] at ht
    split at ht <;> (cases ht; exact .inl ⟨_, _, rfl, by simp⟩)
  | push lobj =>
    simp only [LogManager.step] at ht
    split at ht
    · cases ht
      exact .inr (.inr (.inl ⟨lobj, rfl, rfl⟩))
    · cases ht
  | logger => exact .inr (.inr (.inr (.inl ⟨rfl, t, ht, rfl⟩)))
  | shutDown =>
    cases ht
    exact .inr (.inr (.inr (.inr ⟨rfl, rfl⟩)))
  | stopLoggerMainLoop =>
    cases ht
    exact .inr (.inl ⟨rfl, rfl⟩)
  | connect =>
    cases ht
    exact .inl ⟨_, _, rfl, by simp⟩

theorem Conserved.step (h : Conserved x) (hy : deliveryStep x l = some y) : Conserved y := by
  obtain ⟨hall, hearly, hrunning, hlocal, hreturned⟩ := h
  rcases deliveryStep_cases hy with ⟨calls, mainFogInfo, rfl, -⟩ | ⟨-, rfl⟩ | ⟨lobj, rfl, rfl⟩ |
    ⟨-, t, ht, rfl⟩ | ⟨-, rfl⟩
  · exact ⟨hall, hearly, hrunning, hlocal, hreturned⟩
  · rw [notifyOne_eq]
    constructor <;> grind
  · obtain ⟨logger, -, hsending, hret, heq⟩ := pushBack_eq x.1 lobj
    rw [heq]
    constructor
    · simp [Accepted.follow, hall]
    · simp only [Accepted.follow]
      split
      · exact List.prefix_rfl
      · exact hearly.trans (List.prefix_append _ _)
    all_goals grind [Accepted.follow]
  · rcases loggerStep_cases ht with ⟨logger, rfl, htest, hnil, hne, hret, -⟩ | ⟨rfl, htest, -⟩ |
      ⟨htest, rfl⟩ | ⟨lobj, localBuffer, hpc, hcons, rfl⟩
    all_goals constructor <;> grind
  · constructor <;> grind

/-- What a step other than `ShutDown` does to the condition. -/
theorem kept_congr (h : Conserved x) (hy : deliveryStep x l = some y) (hl : l ≠ .shutDown) :
    Kept y ↔ Kept x := by
  obtain ⟨hall, hearly, hrunning, hlocal, hreturned⟩ := h
  have hlength := hearly.length_le
  simp only [Kept]
  rcases deliveryStep_cases hy with ⟨calls, mainFogInfo, rfl, -⟩ | ⟨-, rfl⟩ | ⟨lobj, rfl, rfl⟩ |
    ⟨-, t, ht, rfl⟩ | ⟨rfl, -⟩
  · rfl
  · rw [notifyOne_eq]
    grind [LoggerPc.leaving]
  · obtain ⟨logger, hleaving, -, -, heq⟩ := pushBack_eq x.1 lobj
    rw [heq]
    grind [Accepted.follow]
  · rcases loggerStep_cases ht with ⟨logger, rfl, htest, hnil, hne, hret, hleaving⟩ |
      ⟨rfl, htest, hcont⟩ | ⟨htest, rfl⟩ | ⟨lobj, localBuffer, hpc, hcons, rfl⟩
    all_goals grind [LoggerPc.leaving]
  · exact absurd rfl hl

/-- The condition is lost exactly when `ShutDown` meets entries that the logger leaves behind. -/
theorem kept_step_iff (h : Conserved x) (hk : Kept x) (hy : deliveryStep x l = some y) :
    Kept y ↔ x.1.KeepsEntries l := by
  by_cases hl : l = .shutDown
  · subst hl
    obtain ⟨t, ht, rfl⟩ := observe_eq_some.mp hy
    cases ht
    obtain ⟨hall, hearly, hrunning, hlocal, hreturned⟩ := h
    simp only [Kept, KeepsEntries, Accepted.follow, forall_const]
    cases hcont : x.1.toContinue with
    | false => simpa using hk hcont
    | true =>
      rw [hrunning hcont, hall, ← List.length_eq_zero_iff]
      simp only [List.length_append, forall_const]
      exact imp_congr_right fun _ => by omega
  · rw [kept_congr h hy hl]
    cases l with
    | shutDown => exact absurd rfl hl
    | _ => exact iff_of_true hk trivial

theorem not_kept_step (h : Conserved x) (hk : ¬ Kept x) (hy : deliveryStep x l = some y) :
    ¬ Kept y := by
  by_cases hl : l = .shutDown
  · subst hl
    obtain ⟨t, ht, rfl⟩ := observe_eq_some.mp hy
    cases ht
    simp only [Kept, Accepted.follow] at hk ⊢
    grind
  · rwa [kept_congr h hy hl]

/-- When the logger has returned, the early entries were sent if it kept them. -/
theorem delivered_iff_kept (h : Conserved x) (hret : x.1.logger = .returned) :
    Delivered x ↔ Kept x := by
  obtain ⟨hall, hearly, hrunning, hlocal, hreturned⟩ := h
  have hnil : x.1.localBuffer = [] := hlocal (by simp [hret])
  rw [hnil, List.append_nil] at hall
  have hsent : x.1.sent <+: x.2.all := hall ▸ List.prefix_append _ _
  simp only [Delivered, Kept, hreturned hret, hret, LoggerPc.leaving, hnil, hsent, true_and,
    List.length_nil, Nat.add_zero, forall_const]
  exact ⟨fun h => h.length_le, fun h => List.prefix_of_prefix_length_le hearly hsent h⟩

/-- In every run up to the return of `RunLoggerMainLoop`: the accepted entries were sent in their
order, each at most once, and every entry that was accepted before `ShutDown` was sent, if and
only if `ShutDown` did not come with entries in the buffer while the logger was leaving. -/
theorem delivered_iff {ls : List Label} (hr : run deliveryStep (initial, {}) ls = some x)
    (hret : x.1.logger = .returned) :
    Delivered x ↔ Along deliveryStep (fun x l => x.1.KeepsEntries l) (initial, {}) ls := by
  have hinv (x l y) (h : Conserved x) (hy : deliveryStep x l = some y) : Conserved y := h.step hy
  have hcons : Conserved x := run_invariant hinv conserved_initial hr
  rw [delivered_iff_kept hcons hret,
    ← always_iff_last hinv (fun _ _ _ h hk hy => not_kept_step h hk hy) conserved_initial hr]
  exact always_iff_along hinv (fun _ _ _ h hk hy => kept_step_iff h hk hy) conserved_initial
    (by simp [Kept, initial]) hr

theorem delivered_oneEntryRun :
    ∃ x, run deliveryStep (initial, {}) oneEntryRun = some x ∧ x.1.logger = .returned ∧
      x.2.early.length = 1 ∧ Delivered x := by
  obtain ⟨x, hx, hret, hone⟩ : ∃ x, run deliveryStep (initial, {}) oneEntryRun = some x ∧
      x.1.logger = .returned ∧ x.2.early.length = 1 := run_reaches (by decide)
  exact ⟨x, hx, hret, hone, (delivered_iff hx hret).mpr (by decide)⟩

/-- An entry is accepted before the logger has made its first test, and the scheduler stops. -/
def lostEntryRun : List Label :=
  [.connect (some [97]), .logRaw [110] [118] 5 [49],
    .push ⟨convertToRedisKey [97] [110] [118], 5, Cbor.toCbor [49]⟩, .logger, .shutDown, .logger]

theorem not_delivered_lostEntryRun :
    ∃ x, run deliveryStep (initial, {}) lostEntryRun = some x ∧ x.1.logger = .returned ∧
      x.2.early.length = 1 ∧ x.1.sent = [] ∧ ¬ Delivered x := run_reaches (by decide)

end LogManager

end JamSched.Data
