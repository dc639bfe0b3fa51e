import Mathlib.Tactic.Common
import Mathlib.Data.List.Infix

/-!
# Programs that ask their environment

Driver code does two kinds of thing: it computes on values it holds, and it
asks something outside itself – a word of memory, a call to another layer, a
callback. A `Program` keeps the two apart. It is a tree: a leaf is a result,
and a node is a request `o` together with what the program does with *each*
possible reply.

Nothing is said yet about what the replies are, and that is the point. The
same program text is read in several ways:

* `Program.run` answers every request from a state, so a call is one step;
* `Program.advance` does the same but stops at chosen requests, where
  somebody else may act before the reply comes;
* `Program.wp` is the weakest precondition of the program under an
  arbitrary reading of its requests;
* `Program.Always` quantifies over every reply an environment may give, and
  says what holds of every request the program makes on the way;
* `Program.Trace` is one sequence of requests and replies, from the first
  request to the result;
* `Program.Exec` is one execution with an environment that has a state and
  a choice of replies;
* `Program.Among` quantifies over what others do to the state in between.

A concurrent execution needs no reading of its own: its threads *are*
residual programs, and a step answers the request at the root of one tree.

The last section is about systems that take step after step: what holds
initially and is kept by every step holds in every state of every run.
-/

variable {O : Type} {R : O → Type} {α β γ σ : Type}

/-- **A program over the requests `O`**, where the reply to `o` has type
`R o`: a result, or a request with a continuation for each reply. -/
inductive Program (O : Type) (R : O → Type) (α : Type) where
  | pure (a : α) : Program O R α
  | op (o : O) (k : R o → Program O R α) : Program O R α

namespace Program

/-- Sequential composition: the leaves of the first program are replaced by
the second. -/
def bind : Program O R α → (α → Program O R β) → Program O R β
  | .pure a, f => f a
  | .op o k, f => .op o (fun r => (k r).bind f)

instance : Monad (Program O R) where
  pure := .pure
  bind := .bind

/-- A single request, returning its reply. -/
def ask (o : O) : Program O R (R o) := .op o .pure

@[simp] theorem pure_eq (a : α) : (Pure.pure a : Program O R α) = .pure a := rfl

@[simp] theorem pure_bind (a : α) (f : α → Program O R β) :
    ((.pure a : Program O R α) >>= f) = f a := rfl

@[simp] theorem op_bind (o : O) (k : R o → Program O R α)
    (f : α → Program O R β) :
    ((.op o k : Program O R α) >>= f) = .op o (fun r => k r >>= f) := rfl

@[simp] theorem ask_bind (o : O) (f : R o → Program O R β) :
    (ask o >>= f) = .op o f := rfl

theorem bind_pure' (p : Program O R α) : (p >>= Program.pure) = p := by
  induction p with
  | pure a => rfl
  | op o k ih =>
    rw [op_bind]
    exact congrArg (Program.op o) (funext ih)

theorem bind_assoc' (p : Program O R α) (f : α → Program O R β)
    (g : β → Program O R γ) :
    (p >>= f >>= g) = (p >>= fun a => f a >>= g) := by
  induction p with
  | pure a => rfl
  | op o k ih =>
    rw [op_bind, op_bind, op_bind]
    exact congrArg (Program.op o) (funext ih)

instance : LawfulMonad (Program O R) :=
  LawfulMonad.mk' (Program O R) bind_pure' (fun _ _ => rfl) bind_assoc'

/-- What is left after a reply is another program. -/
theorem cont_ne (p : Program O R α) {o : O} {k : R o → Program O R α} (hp : p = .op o k)
    (r : R o) : k r ≠ p := by
  induction p generalizing o with
  | pure a => cases hp
  | op o k ih =>
    cases hp
    intro heq
    exact ih r heq r rfl

/-! ## One call at a time -/

/-- **Running a program to its end**, every request answered from a state.
`none` is a request the state cannot answer: an access outside every
mapping, an undefined operation. -/
def run (h : (o : O) → σ → Option (R o × σ)) :
    Program O R α → σ → Option (α × σ)
  | .pure a, s => some (a, s)
  | .op o k, s => (h o s).bind (fun rs => (k rs.1).run h rs.2)

variable {h : (o : O) → σ → Option (R o × σ)} {p : Program O R α} {f : α → Program O R β} {a : α}
  {s s' : σ} {Q : α → Prop}

@[simp] theorem run_pure (a : α) (s : σ) :
    (.pure a : Program O R α).run h s = some (a, s) := rfl

theorem run_op (o : O) (k : R o → Program O R α) (s : σ) :
    (Program.op o k).run h s = (h o s).bind (fun rs => (k rs.1).run h rs.2) := rfl

/-- A request the state answers is a rewriting step. -/
theorem run_op_of {o : O} {k : R o → Program O R α} {r : R o} (hr : h o s = some (r, s')) :
    (Program.op o k).run h s = (k r).run h s' := by
  rw [run_op, hr]
  rfl

theorem run_bind (p : Program O R α) (f : α → Program O R β) (s : σ) :
    (p >>= f).run h s = (p.run h s).bind (fun as => (f as.1).run h as.2) := by
  induction p generalizing s with
  | pure a => rfl
  | op o k ih =>
    rw [op_bind, run_op, run_op]
    cases h o s with
    | none => rfl
    | some rs => exact ih rs.1 rs.2

/-- A call whose outcome is known is a rewriting step. -/
theorem run_bind_of (hp : p.run h s = some (a, s')) : (p >>= f).run h s = (f a).run h s' := by
  rw [run_bind, hp]
  rfl

/-- What is known of a run of two programs in sequence. -/
theorem run_bind_eq_some {r : β × σ} : (p >>= f).run h s = some r ↔
      ∃ a s', p.run h s = some (a, s') ∧ (f a).run h s' = some r := by
  rw [run_bind, Option.bind_eq_some_iff]
  exact ⟨fun ⟨⟨a, s'⟩, hp, hf⟩ => ⟨a, s', hp, hf⟩, fun ⟨a, s', hp, hf⟩ => ⟨(a, s'), hp, hf⟩⟩

/-- **Running up to the next yield.** Requests that `y` marks are not
answered: the program stops in front of one, and whoever the request is
addressed to may act before it continues. -/
def advance (h : (o : O) → σ → Option (R o × σ)) (y : O → Bool) :
    Program O R α → σ → Option (Program O R α × σ)
  | .pure a, s => some (.pure a, s)
  | .op o k, s =>
    if y o then some (.op o k, s)
    else (h o s).bind (fun rs => (k rs.1).advance h y rs.2)

/-! ## Weakest preconditions -/

/-- **The weakest precondition** of a program under a reading `H` of its
requests as predicate transformers. -/
def wp (H : (o : O) → (R o → σ → Prop) → σ → Prop) :
    Program O R α → (α → σ → Prop) → σ → Prop
  | .pure a, Q, s => Q a s
  | .op o k, Q, s => H o (fun r s' => (k r).wp H Q s') s

variable {H : (o : O) → (R o → σ → Prop) → σ → Prop}

@[simp] theorem wp_pure (a : α) (Q : α → σ → Prop) (s : σ) :
    (.pure a : Program O R α).wp H Q s ↔ Q a s := Iff.rfl

theorem wp_op (o : O) (k : R o → Program O R α) (Q : α → σ → Prop) (s : σ) :
    (Program.op o k).wp H Q s ↔ H o (fun r s' => (k r).wp H Q s') s := Iff.rfl

theorem wp_bind (p : Program O R α) (f : α → Program O R β)
    (Q : β → σ → Prop) :
    (p >>= f).wp H Q = p.wp H (fun a s => (f a).wp H Q s) := by
  induction p with
  | pure a => rfl
  | op o k ih =>
    funext s
    rw [op_bind]
    exact congrArg (fun F => H o F s) (funext (fun r => ih r))

/-- A reading of requests is monotone when a weaker continuation is easier
to reach. -/
def MonotoneReading (H : (o : O) → (R o → σ → Prop) → σ → Prop) : Prop :=
  ∀ o (P Q : R o → σ → Prop) s, (∀ r s', P r s' → Q r s') → H o P s → H o Q s

/-- **Consequence.** -/
theorem wp_mono (hH : MonotoneReading H) (p : Program O R α) {P Q : α → σ → Prop}
    (hPQ : ∀ a s, P a s → Q a s) {s : σ} (hp : p.wp H P s) : p.wp H Q s := by
  induction p generalizing s with
  | pure a => exact hPQ a s hp
  | op o k ih => exact hH o _ _ s (fun r s' hr => ih r hr) hp

/-- The reading that answers every request from a state. -/
def answering (h : (o : O) → σ → Option (R o × σ)) (o : O) (post : R o → σ → Prop) (s : σ) :
    Prop :=
  ∃ r s', h o s = some (r, s') ∧ post r s'

theorem monotone_answering : MonotoneReading (answering h) :=
  fun _ _ _ _ hPQ ⟨r, s', hr, hP⟩ => ⟨r, s', hr, hPQ r s' hP⟩

/-- Its weakest precondition speaks of the run. -/
theorem wp_answering_iff (p : Program O R α) {Q : α → σ → Prop} :
    p.wp (answering h) Q s ↔ ∃ a s', p.run h s = some (a, s') ∧ Q a s' := by
  induction p generalizing s with
  | pure a =>
    rw [wp_pure]
    exact ⟨fun hQ => ⟨a, s, rfl, hQ⟩, fun ⟨_, _, hrun, hQ⟩ => by cases hrun; exact hQ⟩
  | op o k ih =>
    constructor
    · rintro ⟨r, s', hr, hp⟩
      obtain ⟨a, s'', hrun, hQ⟩ := (ih r).mp hp
      exact ⟨a, s'', by rw [run_op_of hr, hrun], hQ⟩
    · rintro ⟨a, s'', hrun, hQ⟩
      rw [run_op] at hrun
      obtain ⟨⟨r, s'⟩, hr, hrun⟩ := Option.bind_eq_some_iff.mp hrun
      exact ⟨r, s', hr, (ih r).mpr ⟨a, s'', hrun, hQ⟩⟩

/-- The reading that answers from a state, except that the requests `y`
marks are yields: `I` must hold there, together with what `deliver` makes of
the state, and the program resumes from *any* state satisfying `I`. -/
def yielding (h : (o : O) → σ → Option (R o × σ)) (y : O → Bool)
    (deliver : O → σ → σ) (I : σ → Prop) (o : O) (post : R o → σ → Prop)
    (s : σ) : Prop :=
  if y o then I (deliver o s) ∧ ∀ r s', I s' → post r s'
  else ∃ r s', h o s = some (r, s') ∧ post r s'

theorem monotone_yielding (y : O → Bool) (deliver : O → σ → σ)
    (I : σ → Prop) : MonotoneReading (yielding h y deliver I) := by
  intro o P Q s hPQ hP
  unfold yielding at hP ⊢
  split at hP
  · rename_i hy
    rw [if_pos hy]
    exact ⟨hP.1, fun r s' hI => hPQ r s' (hP.2 r s' hI)⟩
  · rename_i hy
    rw [if_neg hy]
    obtain ⟨r, s', hr, hp⟩ := hP
    exact ⟨r, s', hr, hPQ r s' hp⟩

/-- **A program that keeps `I` at its yields** advances, and stops either at
its end, where the postcondition holds, or in front of a yield, where `I`
holds of the delivered state and the residual program keeps `I` again. -/
theorem advance_of_wp {y : O → Bool} {deliver : O → σ → σ} {I : σ → Prop} (p : Program O R α)
    {Q : α → σ → Prop} (hp : p.wp (yielding h y deliver I) Q s) :
    ∃ p' s', p.advance h y s = some (p', s') ∧
      ((∃ a, p' = .pure a ∧ Q a s') ∨
        ∃ o k, p' = .op o k ∧ y o = true ∧ I (deliver o s') ∧
          ∀ r s'', I s'' → (k r).wp (yielding h y deliver I) Q s'') := by
  induction p generalizing s with
  | pure a => exact ⟨.pure a, s, rfl, Or.inl ⟨a, rfl, hp⟩⟩
  | op o k ih =>
    rw [wp_op] at hp
    unfold yielding at hp
    by_cases hy : y o = true
    · rw [if_pos hy] at hp
      refine ⟨.op o k, s, ?_, Or.inr ⟨o, k, rfl, hy, hp.1, hp.2⟩⟩
      rw [advance, if_pos hy]
    · rw [if_neg hy] at hp
      obtain ⟨r, s', hr, hp'⟩ := hp
      obtain ⟨p', s'', had, hcase⟩ := ih r hp'
      refine ⟨p', s'', ?_, hcase⟩
      rw [advance, if_neg hy, hr]
      exact had

/-! ## Every reply -/

/-- **Whatever the environment replies.** With replies restricted by `E`,
every request the program makes satisfies `G`, and every result `Q`. -/
def Always (E : (o : O) → R o → Prop) (G : O → Prop) (Q : α → Prop) :
    Program O R α → Prop
  | .pure a => Q a
  | .op o k => G o ∧ ∀ r, E o r → (k r).Always E G Q

variable {E : (o : O) → R o → Prop} {G : O → Prop}

@[simp] theorem always_pure (a : α) (Q : α → Prop) :
    (.pure a : Program O R α).Always E G Q ↔ Q a := Iff.rfl

@[simp] theorem always_op (o : O) (k : R o → Program O R α) (Q : α → Prop) :
    (Program.op o k).Always E G Q ↔ G o ∧ ∀ r, E o r → (k r).Always E G Q :=
  Iff.rfl

theorem always_bind (p : Program O R α) (f : α → Program O R β)
    (Q : β → Prop) :
    (p >>= f).Always E G Q ↔ p.Always E G (fun a => (f a).Always E G Q) := by
  induction p with
  | pure a => rfl
  | op o k ih =>
    rw [op_bind, always_op, always_op]
    exact and_congr_right (fun _ => forall_congr' (fun r => imp_congr_right (fun _ => ih r)))

/-- Consequence, in the result and in what is said of the requests. -/
theorem Always.mono {G' : O → Prop} {P : α → Prop} (hp : p.Always E G P) (hG : ∀ o, G o → G' o)
    (hPQ : ∀ a, P a → Q a) : p.Always E G' Q := by
  induction p with
  | pure a => exact hPQ a hp
  | op o k ih => exact ⟨hG o hp.1, fun r hr => ih r (hp.2 r hr)⟩

/-- **Composition**: establish a midcondition, then continue from it. -/
theorem Always.bind {P : α → Prop} {Q : β → Prop} (hp : p.Always E G P)
    (hf : ∀ a, P a → (f a).Always E G Q) : (p >>= f).Always E G Q :=
  (always_bind p f Q).mpr (hp.mono (fun _ h => h) hf)

/-- Two facts about one program hold together. -/
theorem Always.and {G' : O → Prop} {P : α → Prop} (hP : p.Always E G P) (hQ : p.Always E G' Q) :
    p.Always E (fun o => G o ∧ G' o) (fun a => P a ∧ Q a) := by
  induction p with
  | pure a => exact ⟨hP, hQ⟩
  | op o k ih => exact ⟨⟨hP.1, hQ.1⟩, fun r hr => ih r (hP.2 r hr) (hQ.2 r hr)⟩

/-- An environment that replies less often says more. -/
theorem Always.restrict {E' : (o : O) → R o → Prop} (hE : ∀ o r, E' o r → E o r)
    (hp : p.Always E G Q) : p.Always E' G Q := by
  induction p with
  | pure a => exact hp
  | op o k ih => exact ⟨hp.1, fun r hr => ih r (hp.2 r (hE o r hr))⟩

/-- A request a run arrives at is one of those that always are made. -/
theorem Always.of_advance (hE : ∀ o s r s', h o s = some (r, s') → E o r) {y : O → Bool}
    (hp : p.Always E G Q) {o : O} {k : R o → Program O R α}
    (had : p.advance h y s = some (.op o k, s')) : G o := by
  induction p generalizing s with
  | pure a => exact nomatch had
  | op o' k' ih =>
    rw [advance] at had
    split at had
    · obtain ⟨hop, -⟩ := Prod.mk.inj (Option.some.inj had)
      obtain ⟨rfl, -⟩ := Program.op.inj hop
      exact hp.1
    · obtain ⟨⟨r, s₁⟩, hr, had⟩ := Option.bind_eq_some_iff.mp had
      exact ih r (hp.2 r (hE o' s r s₁ hr)) had

/-- **What no request of a program changes, it does not change**, on its way to
the next yield; and what it always does, the rest does. -/
theorem Always.advance_related (hE : ∀ o s r s', h o s = some (r, s') → E o r) {y : O → Bool}
    {T : σ → σ → Prop} (hrefl : ∀ s, T s s) (htrans : ∀ s s' s'', T s s' → T s' s'' → T s s'')
    (hG : ∀ o s r s', G o → h o s = some (r, s') → T s s') {p' : Program O R α}
    (hp : p.Always E G Q) (had : p.advance h y s = some (p', s')) : T s s' ∧ p'.Always E G Q := by
  induction p generalizing s with
  | pure a =>
    obtain ⟨rfl, rfl⟩ := Prod.mk.inj (Option.some.inj had)
    exact ⟨hrefl s, hp⟩
  | op o k ih =>
    rw [advance] at had
    split at had
    · obtain ⟨rfl, rfl⟩ := Prod.mk.inj (Option.some.inj had)
      exact ⟨hrefl s, hp⟩
    · obtain ⟨⟨r, s₁⟩, hr, had⟩ := Option.bind_eq_some_iff.mp had
      obtain ⟨hT, hrest⟩ := ih r (hp.2 r (hE o s r s₁ hr)) had
      exact ⟨htrans s s₁ s' (hG o s r s₁ hp.1 hr) hT, hrest⟩

/-- A run to the end is an advance without yields. -/
theorem advance_of_run (hrun : p.run h s = some (a, s')) :
    p.advance h (fun _ => false) s = some (.pure a, s') := by
  induction p generalizing s with
  | pure b =>
    obtain ⟨rfl, rfl⟩ := Prod.mk.inj (Option.some.inj hrun)
    rfl
  | op o k ih =>
    obtain ⟨⟨r, s₁⟩, hr, hrun⟩ := Option.bind_eq_some_iff.mp hrun
    rw [advance, if_neg Bool.false_ne_true, hr]
    exact ih r hrun

/-- What always holds is a weakest precondition: that of the reading that knows
no state and takes every reply. -/
theorem always_iff_wp (p : Program O R α) (Q : α → Prop) :
    p.Always E G Q ↔
      p.wp (fun o post s => G o ∧ ∀ r, E o r → post r s) (fun a (_ : Unit) => Q a) () := by
  induction p with
  | pure a => rfl
  | op o k ih =>
    exact and_congr_right (fun _ => forall_congr' (fun r => imp_congr_right (fun _ => ih r)))

theorem monotone_always : MonotoneReading
    (fun o (post : R o → Unit → Prop) s => G o ∧ ∀ r, E o r → post r s) :=
  fun _ _ _ s hPQ hP => ⟨hP.1, fun r hr => hPQ r s (hP.2 r hr)⟩

/-- A program that may request anything. -/
theorem Always.trivial (p : Program O R α) : p.Always E (fun _ => True) (fun _ => True) := by
  induction p with
  | pure a => exact True.intro
  | op o k ih => exact ⟨True.intro, fun r _ => ih r⟩

/-- Continuations that agree on what a program can return. -/
theorem Always.bind_congr {f' : α → Program O R β}
    (h : p.Always (fun _ _ => True) (fun _ => True) (fun a => f a = f' a)) :
    (p >>= f) = (p >>= f') := by
  induction p with
  | pure a => exact h
  | op o k ih =>
    rw [op_bind, op_bind]
    exact congrArg (Program.op o) (funext (fun r => ih r (h.2 r True.intro)))

/-- **The results a program can have** with replies the environment may
give. -/
def Returns (E : (o : O) → R o → Prop) : Program O R α → α → Prop
  | .pure a, b => a = b
  | .op o k, b => ∃ r, E o r ∧ (k r).Returns E b

/-- What always holds of the results holds of each result. -/
theorem Always.of_returns (hp : p.Always E G Q) (hr : p.Returns E a) : Q a := by
  induction p with
  | pure b => exact hr ▸ hp
  | op o k ih =>
    obtain ⟨r, hE, hr⟩ := hr
    exact ih r (hp.2 r hE) hr

/-- A result of a program and a result of what follows it. -/
theorem Returns.bind {b : β} (hp : p.Returns E a) (hf : (f a).Returns E b) :
    (p >>= f).Returns E b := by
  induction p with
  | pure c => exact (show c = a from hp) ▸ hf
  | op o k ih =>
    obtain ⟨r, hE, hr⟩ := hp
    exact ⟨r, hE, ih r hr⟩

theorem returns_bind {b : β} : (p >>= f).Returns E b ↔ ∃ a, p.Returns E a ∧ (f a).Returns E b := by
  constructor
  · intro h
    induction p with
    | pure a => exact ⟨a, rfl, h⟩
    | op o k ih =>
      obtain ⟨r, hE, hr⟩ := h
      obtain ⟨a, ha, hb⟩ := ih r hr
      exact ⟨a, ⟨r, hE, ha⟩, hb⟩
  · rintro ⟨a, ha, hb⟩
    exact ha.bind hb

/-- What always holds of a program holds of the rest of it, after each result
the first part can have. -/
theorem Always.after {Q : β → Prop} (h : (p >>= f).Always E G Q) (hr : p.Returns E a) :
    (f a).Always E G Q :=
  ((always_bind p f Q).mp h).of_returns hr

/-- What always holds is what holds of the requests and of each result. -/
theorem always_iff_returns (p : Program O R α) (Q : α → Prop) :
    p.Always E G Q ↔ p.Always E G (fun _ => True) ∧ ∀ a, p.Returns E a → Q a := by
  constructor
  · exact fun h => ⟨h.mono (fun _ hG => hG) (fun _ _ => True.intro), fun _ hr => h.of_returns hr⟩
  · rintro ⟨hG, hQ⟩
    induction p with
    | pure a => exact hQ a rfl
    | op o k ih => exact ⟨hG.1, fun r hr => ih r (hG.2 r hr) (fun a ha => hQ a ⟨r, hr, ha⟩)⟩

/-- **Composition, exactly**: the first part, and what follows each of its
results. -/
theorem always_bind_returns (p : Program O R α) (f : α → Program O R β) (Q : β → Prop) :
    (p >>= f).Always E G Q ↔
      p.Always E G (fun _ => True) ∧ ∀ a, p.Returns E a → (f a).Always E G Q :=
  (always_bind p f Q).trans (always_iff_returns p _)

/-- **Programs that cannot be told apart** by an environment: they make the same
requests and end with the same result, as long as the replies are ones the
environment may give. -/
inductive Agrees (E : (o : O) → R o → Prop) : Program O R α → Program O R α → Prop where
  | pure (a : α) : Agrees E (.pure a) (.pure a)
  | op {o : O} {k k' : R o → Program O R α} (h : ∀ r, E o r → Agrees E (k r) (k' r)) :
      Agrees E (.op o k) (.op o k')

theorem Agrees.refl (p : Program O R α) : p.Agrees E p := by
  induction p with
  | pure a => exact .pure a
  | op o k ih => exact .op (fun r _ => ih r)

/-- Continuations that agree on what a program can return. -/
theorem Agrees.bind {f' : α → Program O R β} (hp : p.Always E G Q)
    (hf : ∀ a, Q a → (f a).Agrees E (f' a)) : (p >>= f).Agrees E (p >>= f') := by
  induction p with
  | pure a => exact hf a hp
  | op o k ih => exact .op (fun r hr => ih r (hp.2 r hr))

/-- Programs that agree go on agreeing after a common first part. -/
theorem Agrees.after {f' : α → Program O R β} (h : (p >>= f).Agrees E (p >>= f'))
    (hr : p.Returns E a) : (f a).Agrees E (f' a) := by
  induction p with
  | pure b => exact (show b = a from hr) ▸ h
  | op o k ih =>
    obtain ⟨r, hE, hr⟩ := hr
    rw [op_bind, op_bind] at h
    cases h with
    | op h => exact ih r (h r hE) hr

/-- A run is one choice of replies, where the state answers as the environment
may. -/
theorem returns_of_run (hE : ∀ o s r s', h o s = some (r, s') → E o r)
    (hrun : p.run h s = some (a, s')) : p.Returns E a := by
  induction p generalizing s with
  | pure b =>
    obtain ⟨rfl, -⟩ := Prod.mk.inj (Option.some.inj hrun)
    exact rfl
  | op o k ih =>
    rw [run_op] at hrun
    obtain ⟨⟨r, s₁⟩, hr, hrun⟩ := Option.bind_eq_some_iff.mp hrun
    exact ⟨r, hE o s r s₁ hr, ih r hrun⟩

/-- A request that does not yield. -/
theorem wp_op_of {y : O → Bool} {deliver : O → σ → σ} {I : σ → Prop} {o : O}
    {k : R o → Program O R α} {r : R o} {Q : α → σ → Prop} (hy : y o = false)
    (hr : h o s = some (r, s')) (hk : (k r).wp (yielding h y deliver I) Q s') :
    (Program.op o k).wp (yielding h y deliver I) Q s := by
  rw [wp_op]
  unfold yielding
  rw [if_neg (by rw [hy]; exact Bool.false_ne_true)]
  exact ⟨r, s', hr, hk⟩

/-- **A run that never yields** is read by its end. -/
theorem wp_of_run (hE : ∀ o s r s', h o s = some (r, s') → E o r) {y : O → Bool}
    {deliver : O → σ → σ} {I : σ → Prop} (hp : p.Always E (fun o => y o = false) (fun _ => True))
    (hrun : p.run h s = some (a, s')) {Q : α → σ → Prop} (hQ : Q a s') :
    p.wp (yielding h y deliver I) Q s := by
  induction p generalizing s with
  | pure b =>
    obtain ⟨rfl, rfl⟩ := Prod.mk.inj (Option.some.inj hrun)
    exact hQ
  | op o k ih =>
    obtain ⟨⟨r, s₁⟩, hr, hrun⟩ := Option.bind_eq_some_iff.mp hrun
    exact wp_op_of hp.1 hr (ih r (hp.2 r (hE o s r s₁ hr)) hrun)

/-! ### Something next to the state -/

section Beside

variable {T : Type}

/-- Answers from a state that has something next to it, which stays. -/
def beside (h : (o : O) → σ → Option (R o × σ)) (o : O) (s : σ × T) : Option (R o × (σ × T)) :=
  (h o s.1).map (fun r => (r.1, (r.2, s.2)))

theorem beside_of {o : O} {r : R o} (hr : h o s = some (r, s')) (t : T) :
    beside h o (s, t) = some (r, (s', t)) := by
  rw [beside, hr]
  rfl

theorem run_beside (hrun : p.run h s = some (a, s')) (t : T) :
    p.run (beside h) (s, t) = some (a, (s', t)) := by
  induction p generalizing s with
  | pure b =>
    obtain ⟨rfl, rfl⟩ := Prod.mk.inj (Option.some.inj hrun)
    rfl
  | op o k ih =>
    obtain ⟨⟨r, s₁⟩, hr, hrun⟩ := Option.bind_eq_some_iff.mp hrun
    rw [run_op_of (beside_of hr t)]
    exact ih r hrun

theorem advance_beside (y : O → Bool) (p : Program O R α) (s : σ) (t : T) :
    p.advance (beside h) y (s, t) = (p.advance h y s).map (fun r => (r.1, (r.2, t))) := by
  induction p generalizing s with
  | pure a => rfl
  | op o k ih =>
    rw [advance, advance]
    split
    · rfl
    · cases hr : h o s with
      | none =>
        rw [beside, hr]
        rfl
      | some rs =>
        obtain ⟨r, s'⟩ := rs
        rw [beside_of hr t]
        exact ih r s'

/-- Nothing next to a state is the state. -/
theorem wp_of_beside {y : O → Bool} {deliver : O → σ → σ} {I : σ → Prop} {Q : α → σ → Prop}
    (hp : p.wp (yielding (beside h) y (fun o x => (deliver o x.1, x.2))
      (fun x : σ × Unit => I x.1)) (fun a x => Q a x.1) (s, ())) :
    p.wp (yielding h y deliver I) Q s := by
  induction p generalizing s with
  | pure a => exact hp
  | op o k ih =>
    rw [wp_op] at hp ⊢
    unfold yielding at hp ⊢
    split at hp
    · rename_i hy
      rw [if_pos hy]
      exact ⟨hp.1, fun r s' hI => ih r (hp.2 r (s', ()) hI)⟩
    · rename_i hy
      obtain ⟨r, x, hr, hrest⟩ := hp
      obtain ⟨⟨r', s'⟩, hr', he⟩ := Option.map_eq_some_iff.mp hr
      obtain ⟨rfl, rfl⟩ := Prod.mk.inj he
      rw [if_neg hy]
      exact ⟨r', s', hr', ih r' hrest⟩

end Beside

/-! ## What is exchanged -/

/-- **The exchanges a program can have**: its requests with the replies they
got, in order, and the result they lead to. -/
def Trace : Program O R α → List ((o : O) × R o) → α → Prop
  | .pure a, tr, b => tr = [] ∧ a = b
  | .op o k, tr, b => ∃ r tr', tr = ⟨o, r⟩ :: tr' ∧ (k r).Trace tr' b

theorem trace_bind {tr : List ((o : O) × R o)} {b : β} : (p >>= f).Trace tr b ↔
      ∃ tr₁ tr₂ a, tr = tr₁ ++ tr₂ ∧ p.Trace tr₁ a ∧ (f a).Trace tr₂ b := by
  induction p generalizing tr with
  | pure a =>
    constructor
    · exact fun h => ⟨[], tr, a, rfl, ⟨rfl, rfl⟩, h⟩
    · rintro ⟨tr₁, tr₂, a', rfl, ⟨rfl, rfl⟩, h⟩
      exact h
  | op o k ih =>
    constructor
    · rintro ⟨r, tr', rfl, h⟩
      obtain ⟨tr₁, tr₂, a, rfl, h₁, h₂⟩ := (ih r).mp h
      exact ⟨⟨o, r⟩ :: tr₁, tr₂, a, rfl, ⟨r, tr₁, rfl, h₁⟩, h₂⟩
    · rintro ⟨tr₁, tr₂, a, rfl, ⟨r, tr', rfl, h₁⟩, h₂⟩
      exact ⟨r, tr' ++ tr₂, rfl, (ih r).mpr ⟨tr', tr₂, a, rfl, h₁, h₂⟩⟩

/-- A run that keeps a record of what was exchanged. -/
def runTraced (h : (o : O) → σ → Option (R o × σ)) :
    Program O R α → σ → Option (List ((o : O) × R o) × α × σ)
  | .pure a, s => some ([], a, s)
  | .op o k, s => (h o s).bind (fun r =>
      ((k r.1).runTraced h r.2).map (fun t => (⟨o, r.1⟩ :: t.1, t.2)))

/-- The record is an exchange of the program. -/
theorem trace_of_runTraced {tr : List ((o : O) × R o)} (hrun : p.runTraced h s = some (tr, a, s')) :
    p.Trace tr a := by
  induction p generalizing s tr with
  | pure b =>
    obtain ⟨rfl, hb⟩ := Prod.mk.inj (Option.some.inj hrun)
    exact ⟨rfl, (Prod.mk.inj hb).1⟩
  | op o k ih =>
    obtain ⟨⟨r, s₁⟩, -, hrun⟩ := Option.bind_eq_some_iff.mp hrun
    obtain ⟨⟨tr', a', s₂⟩, hk, he⟩ := Option.map_eq_some_iff.mp hrun
    obtain ⟨rfl, hb⟩ := Prod.mk.inj he
    obtain ⟨rfl, rfl⟩ := Prod.mk.inj hb
    exact ⟨r, tr', rfl, ih r hk⟩

/-- What holds at the end of every exchange always holds. -/
theorem Always.of_traces (hp : p.Always (fun _ _ => True) G (fun _ => True))
    (hQ : ∀ tr a, p.Trace tr a → Q a) : p.Always (fun _ _ => True) G Q := by
  induction p with
  | pure a => exact hQ [] a ⟨rfl, rfl⟩
  | op o k ih =>
    exact ⟨hp.1, fun r _ => ih r (hp.2 r True.intro) (fun tr a h => hQ _ a ⟨r, tr, rfl, h⟩)⟩

/-- What always holds of the results holds at the end of every exchange. -/
theorem Always.of_trace (hp : p.Always (fun _ _ => True) G Q) {tr : List ((o : O) × R o)}
    (h : p.Trace tr a) : Q a := by
  induction p generalizing tr with
  | pure b => exact h.2 ▸ hp
  | op o k ih =>
    obtain ⟨r, tr', -, h⟩ := h
    exact ih r (hp.2 r True.intro) h

/-- What always holds of the requests holds of those of every exchange. -/
theorem Always.of_mem_trace (hp : p.Always (fun _ _ => True) G Q) {tr : List ((o : O) × R o)}
    (h : p.Trace tr a) : ∀ e ∈ tr, G e.1 := by
  induction p generalizing tr with
  | pure b => rw [h.1]; exact fun _ he => absurd he List.not_mem_nil
  | op o k ih =>
    obtain ⟨r, tr', rfl, h⟩ := h
    exact List.forall_mem_cons.mpr ⟨hp.1, ih r (hp.2 r True.intro) h⟩

/-- The end of an exchange is a result, with the replies that were given. -/
theorem returns_of_trace {tr : List ((o : O) × R o)} (h : p.Trace tr a) (hE : ∀ e ∈ tr, E e.1 e.2) :
    p.Returns E a := by
  induction p generalizing tr with
  | pure b => exact h.2
  | op o k ih =>
    obtain ⟨r, tr', rfl, h⟩ := h
    obtain ⟨hr, hE⟩ := List.forall_mem_cons.mp hE
    exact ⟨r, hr, ih r h hE⟩

/-- Every result is the end of an exchange. -/
theorem Returns.exists_trace (h : p.Returns E a) : ∃ tr, p.Trace tr a ∧ ∀ e ∈ tr, E e.1 e.2 := by
  induction p with
  | pure b => exact ⟨[], ⟨rfl, h⟩, fun _ he => absurd he List.not_mem_nil⟩
  | op o k ih =>
    obtain ⟨r, hr, h⟩ := h
    obtain ⟨tr, htr, hE⟩ := ih r h
    exact ⟨⟨o, r⟩ :: tr, ⟨r, tr, rfl, htr⟩, List.forall_mem_cons.mpr ⟨hr, hE⟩⟩

/-- The reading whose state is what was exchanged so far. Any reply may come,
and every request has to satisfy `G`. -/
def recording (G : O → Prop) (o : O) (post : R o → List ((o : O) × R o) → Prop)
    (tr : List ((o : O) × R o)) : Prop :=
  G o ∧ ∀ r, post r (tr ++ [⟨o, r⟩])

theorem monotone_recording (G : O → Prop) : MonotoneReading (R := R) (recording G) :=
  fun _ _ _ _ hPQ hP => ⟨hP.1, fun r => hPQ r _ (hP.2 r)⟩

/-- The weakest precondition of the recording reading speaks of all requests
and all exchanges. -/
theorem wp_recording_iff (p : Program O R α) {Q : α → List ((o : O) × R o) → Prop}
    {tr : List ((o : O) × R o)} :
    p.wp (recording G) Q tr ↔
      p.Always (fun _ _ => True) G (fun _ => True) ∧
        ∀ tr' a, p.Trace tr' a → Q a (tr ++ tr') := by
  induction p generalizing tr with
  | pure a =>
    rw [wp_pure]
    constructor
    · rintro h
      refine ⟨True.intro, ?_⟩
      rintro tr' b ⟨rfl, rfl⟩
      rwa [List.append_nil]
    · intro h
      simpa only [List.append_nil] using h.2 [] a ⟨rfl, rfl⟩
  | op o k ih =>
    constructor
    · rintro ⟨hG, hk⟩
      refine ⟨⟨hG, fun r _ => ((ih r).mp (hk r)).1⟩, ?_⟩
      rintro tr' a ⟨r, tr'', rfl, h⟩
      simpa only [List.append_assoc, List.singleton_append] using ((ih r).mp (hk r)).2 tr'' a h
    · rintro ⟨⟨hG, hA⟩, hT⟩
      refine ⟨hG, fun r => (ih r).mpr ⟨hA r True.intro, fun tr' a h => ?_⟩⟩
      rw [List.append_assoc, List.singleton_append]
      exact hT _ a ⟨r, tr', rfl, h⟩

/-! ### Environments with a choice of replies -/

/-- An execution of a program: in the state `s` the request `o` may be answered
by `r`, leaving `s'`, if `A o s r s'`. -/
def Exec (A : (o : O) → σ → R o → σ → Prop) : Program O R α → σ → α → σ → Prop
  | .pure a, s, b, t => a = b ∧ s = t
  | .op o k, s, b, t => ∃ r s', A o s r s' ∧ (k r).Exec A s' b t

/-- The requests must meet `G`, and every reply counts. -/
def demonic (G : O → σ → Prop) (A : (o : O) → σ → R o → σ → Prop) (o : O)
    (post : R o → σ → Prop) (s : σ) : Prop :=
  G o s ∧ ∀ r s', A o s r s' → post r s'

variable {A : (o : O) → σ → R o → σ → Prop} {S : O → σ → Prop}

theorem monotone_demonic : MonotoneReading (demonic S A) :=
  fun _ _ _ _ hPQ ⟨hG, hP⟩ => ⟨hG, fun r s' hr => hPQ r s' (hP r s' hr)⟩

theorem exec_bind (p : Program O R α) (f : α → Program O R β) {t : σ} {b : β} :
    (p >>= f).Exec A s b t ↔ ∃ a u, p.Exec A s a u ∧ (f a).Exec A u b t := by
  induction p generalizing s with
  | pure a =>
    constructor
    · exact fun h => ⟨a, s, ⟨rfl, rfl⟩, h⟩
    · rintro ⟨_, _, ⟨rfl, rfl⟩, h⟩
      exact h
  | op o k ih =>
    constructor
    · rintro ⟨r, s', hr, h⟩
      obtain ⟨a, u, hp, hf⟩ := (ih r).mp h
      exact ⟨a, u, ⟨r, s', hr, hp⟩, hf⟩
    · rintro ⟨a, u, ⟨r, s', hr, hp⟩, hf⟩
      exact ⟨r, s', hr, (ih r).mpr ⟨a, u, hp, hf⟩⟩

/-- An execution gets a result that every reply leads to. -/
theorem Exec.of_always {E : (o : O) → R o → Prop} {G : O → Prop} {I : σ → Prop} {t : σ}
    (h : p.Exec A s a t) (hp : p.Always E G Q) (hI : I s)
    (hA : ∀ o s r s', G o → I s → A o s r s' → E o r ∧ I s') : Q a ∧ I t := by
  induction p generalizing s with
  | pure b =>
    obtain ⟨rfl, rfl⟩ := h
    exact ⟨hp, hI⟩
  | op o k ih =>
    obtain ⟨r, s', hr, h⟩ := h
    obtain ⟨hE, hI'⟩ := hA o s r s' hp.1 hI hr
    exact ih r h (hp.2 r hE) hI'

/-- What the weakest precondition promises holds after every execution. -/
theorem Exec.of_wp {Q : α → σ → Prop} {t : σ} (h : p.Exec A s a t) (hp : p.wp (demonic S A) Q s) :
    Q a t := by
  induction p generalizing s with
  | pure b =>
    obtain ⟨rfl, rfl⟩ := h
    exact hp
  | op o k ih =>
    obtain ⟨r, s', hr, h⟩ := h
    exact ih r h (hp.2 r s' hr)

/-- A run is an execution, if the environment may answer as it does. -/
theorem exec_of_run (hA : ∀ o s r s', h o s = some (r, s') → A o s r s') {t : σ}
    (hrun : p.run h s = some (a, t)) : p.Exec A s a t := by
  induction p generalizing s with
  | pure b =>
    obtain ⟨rfl, rfl⟩ := Prod.mk.inj (Option.some.inj hrun)
    exact ⟨rfl, rfl⟩
  | op o k ih =>
    obtain ⟨⟨r, s'⟩, hr, hk⟩ := Option.bind_eq_some_iff.mp hrun
    exact ⟨r, s', hA o s r s' hr, ih r hk⟩

/-- An environment that answers every request it must answer runs the program
to its end. -/
theorem run_of_wp (hA : ∀ o s, S o s → ∃ r s', h o s = some (r, s') ∧ A o s r s') {Q : α → σ → Prop}
    (hp : p.wp (demonic S A) Q s) : ∃ a t, p.run h s = some (a, t) ∧ Q a t := by
  induction p generalizing s with
  | pure a => exact ⟨a, s, rfl, hp⟩
  | op o k ih =>
    obtain ⟨r, s', hr, hrA⟩ := hA o s hp.1
    obtain ⟨a, t, hrun, hQ⟩ := ih r (hp.2 r s' hrA)
    refine ⟨a, t, ?_, hQ⟩
    rw [run_op, hr]
    exact hrun

/-- So it is executed to its end by an environment with a choice of replies. -/
theorem exists_exec_of_wp (hA : ∀ o s, S o s → ∃ r s', A o s r s') {Q : α → σ → Prop}
    (hp : p.wp (demonic S A) Q s) : ∃ a t, p.Exec A s a t ∧ Q a t := by
  induction p generalizing s with
  | pure a => exact ⟨a, s, ⟨rfl, rfl⟩, hp⟩
  | op o k ih =>
    obtain ⟨r, s', hr⟩ := hA o s hp.1
    obtain ⟨a, t, hexec, hQ⟩ := ih r (hp.2 r s' hr)
    exact ⟨a, t, ⟨r, s', hr, hexec⟩, hQ⟩

/-- What holds for all replies may be added to a postcondition. -/
theorem wp_demonic_and {P : α → σ → Prop} (hE : ∀ o s r s', S o s → A o s r s' → E o r)
    (hp : p.wp (demonic S A) P s) (hq : p.Always E G Q) :
    p.wp (demonic S A) (fun a t => P a t ∧ Q a) s := by
  induction p generalizing s with
  | pure a => exact ⟨hp, hq⟩
  | op o k ih =>
    exact ⟨hp.1, fun r s' hr => ih r (hp.2 r s' hr) (hq.2 r (hE o s r s' hp.1 hr))⟩

/-- A program whose requests leave the state alone leaves it alone. -/
theorem Always.wp_still (hp : p.Always E G Q) (hS : ∀ o, G o → S o s)
    (hA : ∀ o r s', G o → A o s r s' → E o r ∧ s' = s) :
    p.wp (demonic S A) (fun a t => Q a ∧ t = s) s := by
  induction p with
  | pure a => exact ⟨hp, rfl⟩
  | op o k ih =>
    refine ⟨hS o hp.1, fun r s' hr => ?_⟩
    obtain ⟨hE, rfl⟩ := hA o r s' hp.1 hr
    exact ih r (hp.2 r hE)

/-- Fewer requests may be asked for. -/
theorem wp_demonic_mono {S' : O → σ → Prop} (hS : ∀ o s, S o s → S' o s) {Q : α → σ → Prop}
    (hp : p.wp (demonic S A) Q s) : p.wp (demonic S' A) Q s := by
  induction p generalizing s with
  | pure a => exact hp
  | op o k ih => exact ⟨hS o s hp.1, fun r s' hr => ih r (hp.2 r s' hr)⟩

/-! ### Among others

A thread whose state others change between its requests. What is claimed of it
is claimed for every change they may have made. -/

/-- **Until something happens.** A request must meet `S`, and every reply `A`
allows counts, except that nothing more is asked for once an exchange meets
`stop`. -/
def awaiting (S : O → σ → Prop) (A : (o : O) → σ → R o → σ → Prop)
    (stop : (o : O) → σ → R o → Prop) (o : O) (post : R o → σ → Prop) (s : σ) : Prop :=
  S o s ∧ ∀ r s', A o s r s' → stop o s r ∨ post r s'

theorem monotone_awaiting {stop : (o : O) → σ → R o → Prop} :
    MonotoneReading (awaiting S A stop) :=
  fun _ _ _ _ hPQ hP => ⟨hP.1, fun r s' hr => (hP.2 r s' hr).imp_right (hPQ r s')⟩

/-- After the reply others may act. -/
def interfered (rely : σ → σ → Prop) (A : (o : O) → σ → R o → σ → Prop) (o : O) (s : σ)
    (r : R o) (s' : σ) : Prop :=
  ∃ s₁, A o s r s₁ ∧ rely s₁ s'

/-- **What a thread does among others** that change the state along `rely`: its
requests meet `S`, and where it returns before anything meets `stop`, it returns
with `Q`. With `Q` false it does not return before. -/
def Among (rely : σ → σ → Prop) (S : O → σ → Prop) (A : (o : O) → σ → R o → σ → Prop)
    (stop : (o : O) → σ → R o → Prop) (p : Program O R α) (Q : α → σ → Prop) (s : σ) : Prop :=
  ∀ s', rely s s' → p.wp (awaiting S (interfered rely A) stop) Q s'

section Among

variable {rely : σ → σ → Prop} {stop : (o : O) → σ → R o → Prop} {Q : α → σ → Prop} {s s' : σ}

/-- Others do not disturb it. -/
theorem Among.stable (htrans : ∀ s s' s'', rely s s' → rely s' s'' → rely s s'')
    (h : Among rely S A stop p Q s) (hs : rely s s') : Among rely S A stop p Q s' :=
  fun s'' hs' => h s'' (htrans s s' s'' hs hs')

theorem Among.request (hrefl : ∀ s, rely s s) {o : O} {k : R o → Program O R α}
    (h : Among rely S A stop (.op o k) Q s) : S o s :=
  (h s (hrefl s)).1

/-- **One exchange.** -/
theorem Among.reply (hrefl : ∀ s, rely s s) {o : O} {k : R o → Program O R α}
    (h : Among rely S A stop (.op o k) Q s) {r : R o} (hr : A o s r s') :
    stop o s r ∨ Among rely S A stop (k r) Q s' := by
  rcases Classical.em (stop o s r) with hstop | hstop
  · exact Or.inl hstop
  · exact Or.inr (fun s'' hs =>
      ((h s (hrefl s)).2 r s'' ⟨s', hr, hs⟩).resolve_left hstop)

theorem Among.result (hrefl : ∀ s, rely s s) {a : α} (h : Among rely S A stop (.pure a) Q s) :
    Q a s :=
  h s (hrefl s)

/-- **What every exchange keeps**, unless it meets `stop`, holds where the thread
returns. -/
theorem wp_awaiting_keep {I : σ → Prop}
    (hkeep : ∀ o s r s', S o s → I s → A o s r s' → stop o s r ∨ I s') (hI : I s)
    (hp : p.wp (awaiting S A stop) Q s) :
    p.wp (awaiting S A stop) (fun a s' => Q a s' ∧ I s') s := by
  induction p generalizing s with
  | pure a => exact ⟨hp, hI⟩
  | op o k ih =>
    refine ⟨hp.1, fun r s' hr => ?_⟩
    rcases hkeep o s r s' hp.1 hI hr with hstop | hI'
    · exact Or.inl hstop
    · exact (hp.2 r s' hr).imp_right (ih r hI')

end Among

/-! ## Requests of a larger set -/

section Embed

variable {O' : Type} {R' : O' → Type}

/-- The program with its requests read as some of a larger set. -/
def embed (f : O → O') (g : (o : O) → R' (f o) → R o) : Program O R α → Program O' R' α
  | .pure a => .pure a
  | .op o k => .op (f o) (fun r => (k (g o r)).embed f g)

/-- It is read as the larger set reads them. -/
theorem wp_embed {f : O → O'} {g : (o : O) → R' (f o) → R o}
    {H' : (o : O') → (R' o → σ → Prop) → σ → Prop} (p : Program O R α) (Q : α → σ → Prop) :
    (p.embed f g).wp H' Q
      = p.wp (fun o post s => H' (f o) (fun r s' => post (g o r) s') s) Q := by
  induction p with
  | pure a => rfl
  | op o k ih =>
    funext s
    exact congrArg (fun F => H' (f o) F s) (funext (fun r => ih (g o r)))

end Embed

end Program

/-! ## Systems that take step after step -/

namespace Steps

variable {A : Type} {step : σ → A → Option σ}

/-- **The states a system reaches** from `s` by actions it can take. -/
inductive Reach (step : σ → A → Option σ) (s : σ) : σ → Prop where
  | refl : Reach step s s
  | tail {t u : σ} (a : A) : Reach step s t → step t a = some u → Reach step s u

/-- **The invariant rule**: what holds initially and is kept by every step
holds in every state reached. -/
theorem Reach.invariant {I : σ → Prop} {s t : σ} (hr : Reach step s t)
    (h0 : I s) (hstep : ∀ u a v, I u → step u a = some v → I v) : I t := by
  induction hr with
  | refl => exact h0
  | tail a _ hs ih => exact hstep _ a _ ih hs

/-- **The system restricted to actions that meet a condition** in the state they
are taken in. -/
def guarded (P : σ → A → Prop) [∀ s a, Decidable (P s a)] (step : σ → A → Option σ) :
    σ → A → Option σ :=
  fun s a => if P s a then step s a else none

/-- The invariant rule for it: the condition may be used at every step. -/
theorem Reach.invariant_guarded {P : σ → A → Prop} [∀ s a, Decidable (P s a)] {I : σ → Prop}
    {s t : σ} (hr : Reach (guarded P step) s t) (h0 : I s)
    (hstep : ∀ u a v, I u → P u a → step u a = some v → I v) : I t := by
  refine hr.invariant h0 (fun u a v hI hs => ?_)
  unfold guarded at hs
  split at hs
  · rename_i hP
    exact hstep u a v hI hP hs
  · exact nomatch hs

/-- Running a list of actions. -/
def runActs (step : σ → A → Option σ) : List A → σ → Option σ
  | [], s => some s
  | a :: as, s => (step s a).bind (runActs step as)

/-- A run that succeeds reaches its last state. -/
theorem reach_of_runActs {as : List A} {s t : σ}
    (h : runActs step as s = some t) : Reach step s t := by
  suffices hgen : ∀ u, Reach step u s → Reach step u t from hgen s Reach.refl
  induction as generalizing s with
  | nil =>
    intro u hu
    obtain rfl := Option.some.inj h
    exact hu
  | cons a as ih =>
    intro u hu
    rw [runActs] at h
    cases hs : step s a with
    | none => rw [hs] at h; exact absurd h (by simp)
    | some v =>
      rw [hs] at h
      exact ih h u (Reach.tail a hu hs)

/-- **The runs of a system whose steps have labels.** -/
inductive Runs (step : σ → A → σ → Prop) (s : σ) : List A → σ → Prop where
  | refl : Runs step s [] s
  | tail {as : List A} {a : A} {t u : σ} (hr : Runs step s as t) (hs : step t a u) :
      Runs step s (as ++ [a]) u

/-- **Forward simulation**: where every step from related states is matched by one
with the same label to related states, every run is matched. -/
theorem Runs.simulates {τ : Type} {step : σ → A → σ → Prop} {step' : τ → A → τ → Prop}
    {I : σ → τ → Prop} {s s' : σ} {d : τ} {as : List A} (hr : Runs step s as s') (h : I s d)
    (hstep : ∀ s d a s', I s d → step s a s' → ∃ d', step' d a d' ∧ I s' d') :
    ∃ d', Runs step' d as d' ∧ I s' d' := by
  induction hr with
  | refl => exact ⟨d, .refl, h⟩
  | tail _ hs ih =>
    obtain ⟨d', hd, hrel⟩ := ih
    obtain ⟨d'', hs', hrel'⟩ := hstep _ _ _ _ hrel hs
    exact ⟨d'', hd.tail hs', hrel'⟩

end Steps
