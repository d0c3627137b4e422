import BehaviourGraph.Proofs.Walk.Calculus

/-!
# Agreement of walks

Two walks are compared part by part: from the same session they do the same, unless the first leads to
an exception by the time it ends or breaks off.  What each part leads to is what the next one may begin
with.
-/

namespace BehaviourGraph.Walk

variable {κ τ ρ α β : Type}

/-- From every session with a property `I` two walks do the same, unless the first leads to `P`. -/
def AgreesUnless (I P : Session κ τ ρ → Prop) (w w' : Walk κ τ ρ α) : Prop :=
  ∀ s, I s → w' s = w s ∨ w.Leads s (fun _ => P) P

abbrev AgreesOn (I : Session κ τ ρ → Prop) (w w' : Walk κ τ ρ α) : Prop :=
  AgreesUnless I (fun _ => False) w w'

/-- What a kept property leads to, however walks break off. -/
theorem Keeps.led {I : Session κ τ ρ → Prop} {w : Walk κ τ ρ α} (h : Keeps I w) (s : Session κ τ ρ)
    (hs : I s) : w.Leads s (fun _ => I) fun _ => True :=
  (h s hs).imp (fun _ _ hs => hs) fun _ _ => trivial

section AgreesUnless

variable {I P : Session κ τ ρ → Prop} {J : β → Session κ τ ρ → Prop} {w w' : Walk κ τ ρ β}
  {f f' : β → Walk κ τ ρ α}

theorem AgreesUnless.refl (w : Walk κ τ ρ α) : AgreesUnless I P w w := fun _ _ => .inl rfl

/-- Parts that agree may be followed by parts that agree and do not give up the exception. -/
theorem AgreesUnless.bind (hw : AgreesUnless I P w w')
    (hJ : ∀ s, I s → w.Leads s J fun _ => True) (hf : ∀ b, AgreesUnless (J b) P (f b) (f' b))
    (hP : ∀ b, Keeps P (f b)) : AgreesUnless I P (w >>= f) (w' >>= f') := by
  intro s hs
  rcases hw s hs with hsame | hled
  · have hbegun := hJ s hs
    unfold Leads at hbegun ⊢
    simp only [Bind.bind, EStateM.bind, hsame]
    generalize w s = result at hbegun ⊢
    cases result with
    | ok b s => exact hf b s hbegun
    | error cause s => exact .inl rfl
  · right
    rw [leads_bind]
    exact hled.imp (fun b s hs => hP b s hs) fun _ hs => hs

/-- After the same part nothing has to be kept of the exception. -/
theorem AgreesUnless.after (hJ : ∀ s, I s → w.Leads s J fun _ => True)
    (hf : ∀ b, AgreesUnless (J b) P (f b) (f' b)) : AgreesUnless I P (w >>= f) (w >>= f') := by
  intro s hs
  have hbegun := hJ s hs
  simp only [Leads, Bind.bind, EStateM.bind] at hbegun ⊢
  generalize w s = result at hbegun ⊢
  cases result with
  | ok b s => exact hf b s hbegun
  | error cause s => exact .inl rfl

theorem AgreesUnless.ite {c : Prop} [Decidable c] {v v' : Walk κ τ ρ β} (hw : AgreesUnless I P w w')
    (hv : AgreesUnless I P v v') :
    AgreesUnless I P (if c then w else v) (if c then w' else v') := by
  split
  · exact hw
  · exact hv

theorem AgreesOn.eq (h : AgreesOn I w w') {s : Session κ τ ρ} (hs : I s) : w' s = w s := by
  rcases h s hs with hsame | hled
  · exact hsame
  · unfold Leads at hled
    cases hresult : w s <;> simp [hresult] at hled

/-- After parts that agree the rest goes on from what they lead to. -/
theorem AgreesOn.then (hw : AgreesOn I w w') (hJ : ∀ s, I s → w.Leads s J fun _ => True)
    (hf : ∀ b, AgreesOn (J b) (f b) (f' b)) : AgreesOn I (w >>= f) (w' >>= f') :=
  hw.bind hJ hf fun _ _ hs => hs.elim

theorem AgreesOn.before (hw : AgreesOn I w w') (f : β → Walk κ τ ρ α) :
    AgreesOn I (w >>= f) (w' >>= f) := by
  intro s hs
  left
  simp only [Bind.bind, EStateM.bind, hw.eq hs]

/-- A walk that looks at the session first is compared from that session. -/
theorem AgreesOn.look {look : Session κ τ ρ → Walk κ τ ρ β} (h : ∀ s, I s → look s s = w s) :
    AgreesOn I w (get >>= look) := fun s hs => .inl (h s hs)

theorem leads_fanOut {tick : TransitionId → Walk κ τ ρ Bool} {breaks : Session κ τ ρ → Prop}
    (htick : ∀ t s, I s → (tick t).Leads s (fun _ => I) breaks) (ts : List TransitionId)
    {s : Session κ τ ρ} (hs : I s) : (fanOut tick ts).Leads s (fun _ => I) breaks :=
  leads_fanOut_until (I := fun _ => I) ts
    (fun t _ s _ hs => (htick t s hs).imp (fun goes _ hs => by cases goes <;> exact hs) fun _ hb => hb)
    (fun _ hs => hs) hs

theorem Keeps.fanOut {tick : TransitionId → Walk κ τ ρ Bool} (htick : ∀ t, Keeps P (tick t))
    (ts : List TransitionId) : Keeps P (fanOut tick ts) := fun _ hs => leads_fanOut htick ts hs

theorem agrees_fanOut {tick tick' : TransitionId → Walk κ τ ρ Bool}
    (htick : ∀ t, AgreesUnless I P (tick t) (tick' t))
    (hI : ∀ t s, I s → (tick t).Leads s (fun _ => I) fun _ => True) (hP : ∀ t, Keeps P (tick t))
    (ts : List TransitionId) : AgreesUnless I P (fanOut tick ts) (fanOut tick' ts) := by
  induction ts with
  | nil => exact .refl _
  | cons t ts ih =>
      exact (htick t).bind (hI t) (fun goes => .ite ih (.refl _)) fun goes =>
        .ite (Keeps.fanOut hP ts) (.pure _)

end AgreesUnless

end BehaviourGraph.Walk
