import VirtualList.Proofs.Presenter.Measuring
import VirtualList.Proofs.Presenter.Refusal
import VirtualList.Proofs.Scalar
import VirtualList.Surface.Simulated

/-!
# Echoes of the scroll position

A host that was told to scroll sees its own offset change, and may report that back.  Such an echo
names the position that the presenter has already, and nothing comes of it: no pass is asked for,
the window stays as it is, and an item that is being brought into view stays pinned.  Only an eased
scroll does not outlive it.  So runs with echoes and runs without them are told apart by nothing but
an eased scroll that an echo has ended.

## Key results

- `Move`, `play`: what a host does with a presenter, echoes included
- `followScroll_echo`: what an echo leaves behind
- `echoes_end_animation_only`: echoes make no other difference to a run
- `undisturbed_of_not_eases`: and none at all where nothing is eased
- `Reachable.echo_ends_animation`: an eased scroll that an echo has ended
-/

namespace VirtualList

/-- Computations go on alike if they do so from the result of the first part. -/
theorem bind_congr_ok {ε α β : Type} {x : Except ε α} {f g : α → Except ε β}
    (h : ∀ a, x = .ok a → f a = g a) : (x >>= f) = (x >>= g) := by
  cases x with
  | error e => rfl
  | ok a => exact h a rfl

namespace Presenter

/-! ## Runs with echoes -/

/-- What a host does with a presenter. -/
inductive Move (κ α : Type) where
  | input (r : Request κ α)
  | frame (now : Nat)
  /-- The host reports the scroll position that the presenter has. -/
  | echo

namespace Move

variable {κ α : Type}

/-- The move is an echo. -/
def isEcho : Move κ α → Bool
  | echo => true
  | _ => false

/-- An echo gives way to the end of the eased scroll. -/
def cancelling : Move κ α → Move κ α
  | echo => input .cancelAnimation
  | m => m

/-- What an input sets is admissible. -/
def Admissible (fits : (Nat → κ) → Prop) : Move κ α → Prop
  | input r => r.Admissible fits
  | _ => True

/-- The move starts an eased scroll. -/
def eases : Move κ α → Bool
  | input (.smoothScrollToIndex ..) => true
  | _ => false

end Move

variable {σ κ α : Type} [Ord κ] [Std.TransOrd κ] [Scalar α]

/-- Makes a move.  Only a frame is reported on. -/
def move (S : Surface σ κ α) (p : Presenter κ α) (s : σ) :
    Move κ α → Except Fault (Option (FrameReport α) × Presenter κ α × σ)
  | .input r => do
    let p ← p.respond r
    return (none, p, s)
  | .frame now => do
    let (report, p, s) ← p.frame S s now
    return (some report, p, s)
  | .echo => do
    let (_, p) ← p.followScroll p.layout.scrollPosition
    return (none, p, s)

/-- Makes moves one after the other, and answers with the reports of the frames. -/
def play (S : Surface σ κ α) (p : Presenter κ α) (s : σ) :
    List (Move κ α) → Except Fault (List (FrameReport α) × Presenter κ α × σ)
  | [] => .ok ([], p, s)
  | m :: rest => do
    let (report, p, s) ← p.move S s m
    let (reports, p, s) ← play S p s rest
    return (report.toList ++ reports, p, s)

/-- A move continues a run. -/
theorem Reachable.move {fits : (Nat → κ) → Prop} {P : Measurement α → Prop} {S : Surface σ κ α}
    (hS : S.Answers P) {m : Move κ α} (hm : m.Admissible fits) {p p' : Presenter κ α} {s s' : σ}
    {report : Option (FrameReport α)} (hp : Reachable fits P p)
    (h : p.move S s m = .ok (report, p', s')) : Reachable fits P p' := by
  cases m with
  | input r =>
    obtain ⟨p₁, hrespond, h⟩ := bind_eq_ok.1 h
    cases h
    exact hp.input hm hrespond
  | frame now =>
    obtain ⟨⟨frameReport, p₁, s₁⟩, hframe, h⟩ := bind_eq_ok.1 h
    cases h
    exact hp.frame hS hframe
  | echo =>
    -- An echo is a report of the scroll position like any other.
    obtain ⟨⟨answer, p₁⟩, hfollow, h⟩ := bind_eq_ok.1 h
    cases h
    refine hp.input (r := .followScroll p.layout.scrollPosition) trivial ?_
    simp only [respond, hfollow]
    rfl

/-- Moves continue a run. -/
theorem Reachable.play {fits : (Nat → κ) → Prop} {P : Measurement α → Prop} {S : Surface σ κ α}
    (hS : S.Answers P) {moves : List (Move κ α)} (hmoves : ∀ m ∈ moves, m.Admissible fits) :
    ∀ {p p' : Presenter κ α} {s s' : σ} {reports : List (FrameReport α)}, Reachable fits P p →
      p.play S s moves = .ok (reports, p', s') → Reachable fits P p' := by
  induction moves with
  | nil =>
    intro p p' s s' reports hp h
    cases h
    exact hp
  | cons m rest ih =>
    intro p p' s s' reports hp h
    obtain ⟨hm, hrest⟩ := List.forall_mem_cons.1 hmoves
    obtain ⟨⟨report, p₁, s₁⟩, hmove, h⟩ := bind_eq_ok.1 h
    obtain ⟨⟨reports₁, p₂, s₂⟩, hplay, h⟩ := bind_eq_ok.1 h
    cases h
    exact ih hrest (hp.move hS hm hmove) hplay

/-! ## What an echo does -/

omit [Std.TransOrd κ] in
/-- After an echo everything is as before, but no eased scroll is under way. -/
theorem followScroll_echo [FiniteRefl α] (p : Presenter κ α) :
    ∃ answer, p.followScroll p.layout.scrollPosition = .ok (answer, p.cancelAnimation) := by
  by_cases hfinite : Scalar.isFinite p.layout.scrollPosition = true
  · -- The position is the one that is there already.
    have hmove : p.layout.moveTo p.layout.scrollPosition = (.ok false, p.layout) := by
      simp [Layout.moveTo, hfinite, FiniteRefl.beq_self]
    have hcancelled : p.cancelAnimation.layout = p.layout := rfl
    refine ⟨.ok (), ?_⟩
    simp only [followScroll, hcancelled, hmove]
    rfl
  · rw [Bool.not_eq_true] at hfinite
    exact ⟨_, followScroll_eq_error_iff.2 ⟨hfinite, rfl, rfl⟩⟩

theorem move_echo [FiniteRefl α] (S : Surface σ κ α) (p : Presenter κ α) (s : σ) :
    p.move S s .echo = p.move S s (.input .cancelAnimation) := by
  obtain ⟨answer, hecho⟩ := p.followScroll_echo
  simp only [move, hecho]
  rfl

/-- The first of several moves. -/
theorem play_cons (S : Surface σ κ α) (p : Presenter κ α) (s : σ) (m : Move κ α)
    (rest : List (Move κ α)) : p.play S s (m :: rest) = (do
      let (report, p, s) ← p.move S s m
      let (reports, p, s) ← p.play S s rest
      return (report.toList ++ reports, p, s)) :=
  rfl

/-- An echo where nothing is eased makes no difference. -/
theorem play_echo_cons [FiniteRefl α] (S : Surface σ κ α) {p : Presenter κ α} (s : σ)
    (rest : List (Move κ α)) (h : p.isAnimating = false) :
    p.play S s (.echo :: rest) = p.play S s rest := by
  have hsame : p.cancelAnimation = p := cancelAnimation_eq_self_iff.2 h
  have hmove : p.move S s .echo = .ok (none, p, s) := by
    rw [move_echo]
    show Except.ok (none, p.cancelAnimation, s) = _
    rw [hsame]
  rw [play_cons, hmove]
  show (p.play S s rest >>= fun x => Except.ok (x.1, x.2.1, x.2.2)) = _
  cases p.play S s rest <;> rfl

/-! ## What starts an eased scroll -/

/-- A pass does not start or end one: showing the items and measuring them leave it under way. -/
theorem runPass_isAnimating [Std.LawfulEqOrd κ] {S : Surface σ κ α} {f g : Stage σ κ α}
    {reasons : Reasons} (h : f.runPass S reasons = .ok g) :
    g.presenter.isAnimating = f.presenter.isAnimating := by
  obtain ⟨pass, events, layout, -, rfl⟩ := Stage.runPass_eq_ok h
  have hplan := (f.withPass pass layout).showPass_keepsPlan S reasons events
  generalize (f.withPass pass layout).showPass S reasons events = f₁ at hplan ⊢
  obtain ⟨g₁, htouched, hmeasured⟩ := f₁.measureTargets_touches S
  obtain ⟨book, corrections, resized, heq⟩ := htouched.presenter_eq
  have hsame : (f₁.measureTargets S).presenter.smooth = f₁.presenter.smooth := by
    rcases hmeasured with heq' | heq'
    · rw [heq', heq]
    · rw [heq', heq]
      rfl
  have hkept : (f₁.measureTargets S).keepEasing.presenter.isAnimating =
      (f₁.measureTargets S).presenter.isAnimating := by
    unfold Stage.keepEasing
    split <;> rfl
  rw [hkept, isAnimating, hsame, hplan.smooth]
  rfl

/-- A frame does not start one either. -/
theorem frame_isAnimating [Std.LawfulEqOrd κ] {S : Surface σ κ α} {p p' : Presenter κ α} {s s' : σ}
    {now : Nat} {report : FrameReport α} (hp : p.isAnimating = false)
    (h : p.frame S s now = .ok (report, p', s')) : p'.isAnimating = false := by
  obtain ⟨p₁, s₁, hadvance, hcases⟩ := frame_cases h
  rcases advance_cases hadvance with ⟨-, rfl, rfl⟩ | ⟨smooth, hsmooth, -⟩
  · have hannounced : ((p₁.opening s₁).announceVisible S).presenter.isAnimating = false := by
      rw [← hp]
      unfold Stage.announceVisible
      split <;> rfl
    rcases hcases with ⟨-, -, rfl, -⟩ | ⟨-, ⟨-, hpass⟩ | ⟨-, hend⟩⟩
    · exact hp
    · rw [← hannounced]
      exact runPass_isAnimating hpass
    · rw [hend] at hannounced
      exact hannounced
  · rw [isAnimating, hsmooth] at hp
    cases hp

omit [Std.TransOrd κ] in
/-- After a report of the scroll position nothing is eased. -/
theorem followScroll_isAnimating {p p' : Presenter κ α} {position : α}
    {answer : Except (InputError α) Unit} (h : p.followScroll position = .ok (answer, p')) :
    p'.isAnimating = false := by
  rcases followScroll_cases h with ⟨-, rfl⟩ | ⟨layout, -, -, rfl | rfl | ⟨_, _, -, -, rfl⟩⟩ <;> rfl

/-- The one input that starts an eased scroll is the request for it. -/
theorem move_isAnimating [Std.LawfulEqOrd κ] {S : Surface σ κ α} {p p' : Presenter κ α} {s s' : σ}
    {m : Move κ α} {report : Option (FrameReport α)} (hm : m.eases = false)
    (hp : p.isAnimating = false) (h : p.move S s m = .ok (report, p', s')) :
    p'.isAnimating = false := by
  cases m with
  | frame now =>
    obtain ⟨⟨frameReport, p₁, s₁⟩, hframe, h⟩ := bind_eq_ok.1 h
    cases h
    exact frame_isAnimating hp hframe
  | echo =>
    obtain ⟨⟨answer, p₁⟩, hfollow, h⟩ := bind_eq_ok.1 h
    cases h
    exact followScroll_isAnimating hfollow
  | input r =>
    obtain ⟨p₁, hrespond, h⟩ := bind_eq_ok.1 h
    cases h
    cases respond_effect hrespond with
    | eased smooth => cases hm
    | viewport main cross =>
      rcases p.setViewport_cases main cross with heq | ⟨_, _, _, _, -, -, -, heq | ⟨-, -, heq⟩⟩ <;>
        (rw [heq]; exact hp)
    | followed hfollow => exact followScroll_isAnimating hfollow
    | pinned _ => rfl
    | cancelled => rfl
    | forgotten => rfl
    | _ => exact hp

/-! ## Whole runs -/

/-- No echo of a run comes while a scroll is eased. -/
def Undisturbed (S : Surface σ κ α) (p : Presenter κ α) (s : σ) (moves : List (Move κ α)) : Prop :=
  ∀ before after reports p' s', moves = before ++ .echo :: after →
    p.play S s before = .ok (reports, p', s') → p'.isAnimating = false

/-- What is left of such a run after its first move is such a run. -/
theorem Undisturbed.tail {S : Surface σ κ α} {p p' : Presenter κ α} {s s' : σ} {m : Move κ α}
    {rest : List (Move κ α)} {report : Option (FrameReport α)}
    (h : p.Undisturbed S s (m :: rest)) (hmove : p.move S s m = .ok (report, p', s')) :
    p'.Undisturbed S s' rest := by
  intro before after reports q t hrest hplay
  apply h (m :: before) after (report.toList ++ reports) q t
  · rw [hrest, List.cons_append]
  · rw [play_cons, hmove]
    show (p'.play S s' before >>= _) = _
    rw [hplay]
    rfl

/-- Where no eased scroll is asked for, no echo comes while a scroll is eased. -/
theorem undisturbed_of_not_eases [Std.LawfulEqOrd κ] (S : Surface σ κ α) {p : Presenter κ α} (s : σ)
    {moves : List (Move κ α)} (hp : p.isAnimating = false) (h : ∀ m ∈ moves, m.eases = false) :
    p.Undisturbed S s moves := by
  intro before after reports p' s' hmoves hplay
  have hbefore : ∀ m ∈ before, m.eases = false := by
    intro m hm
    apply h m
    rw [hmoves]
    exact List.mem_append_left _ hm
  clear h hmoves
  -- Nothing is eased after any of the moves before the echo.
  induction before generalizing p s reports with
  | nil =>
    cases hplay
    exact hp
  | cons m rest ih =>
    obtain ⟨hm, hrest⟩ := List.forall_mem_cons.1 hbefore
    obtain ⟨⟨report, p₁, s₁⟩, hmove, hplay⟩ := bind_eq_ok.1 hplay
    obtain ⟨⟨reports₁, p₂, s₂⟩, hplay₁, hplay⟩ := bind_eq_ok.1 hplay
    cases hplay
    exact ih s₁ (move_isAnimating hm hp hmove) reports₁ hplay₁ hrest

/-- Echoes that come while nothing is eased can be left out. -/
theorem Undisturbed.play_eq [FiniteRefl α] {S : Surface σ κ α} {p : Presenter κ α} {s : σ}
    {moves : List (Move κ α)} (h : p.Undisturbed S s moves) :
    p.play S s moves = p.play S s (moves.filter fun m => !m.isEcho) := by
  induction moves generalizing p s with
  | nil => rfl
  | cons m rest ih =>
    cases m with
    | echo =>
      have hidle : p.isAnimating = false := h [] rest [] p s rfl rfl
      have hmove : p.move S s .echo = .ok (none, p, s) := by
        rw [move_echo]
        show Except.ok (none, p.cancelAnimation, s) = _
        rw [cancelAnimation_eq_self_iff.2 hidle]
      rw [play_echo_cons S s rest hidle]
      exact ih (h.tail hmove)
    | _ =>
      -- Any other move is made in both runs.
      rw [List.filter_cons_of_pos rfl, play_cons, play_cons]
      refine bind_congr_ok fun x hmove => ?_
      obtain ⟨report, p', s'⟩ := x
      simp only [ih (h.tail hmove)]

/-- What echoes do to a run, on any surface and from any state on:

* an echo leaves all as it is but the eased scroll, which it ends;
* so a run with echoes is the run in which the host ends the eased scroll instead, with the same
  frames, the same reports and the same calls on the surface;
* and it is the run without the echoes if each of them comes while nothing is eased. -/
theorem echoes_end_animation_only [FiniteRefl α] (S : Surface σ κ α) (p : Presenter κ α) (s : σ)
    (moves : List (Move κ α)) :
    (∃ answer, p.followScroll p.layout.scrollPosition = .ok (answer, { p with smooth := none })) ∧
      p.play S s moves = p.play S s (moves.map Move.cancelling) ∧
      (p.Undisturbed S s moves →
        p.play S s moves = p.play S s (moves.filter fun m => !m.isEcho)) := by
  refine ⟨p.followScroll_echo, ?_, Undisturbed.play_eq⟩
  induction moves generalizing p s with
  | nil => rfl
  | cons m rest ih =>
    have hfirst : p.move S s m.cancelling = p.move S s m := by
      cases m with
      | echo => exact (move_echo S p s).symm
      | _ => rfl
    rw [List.map_cons, play_cons, play_cons, hfirst]
    refine bind_congr_ok fun x _ => ?_
    obtain ⟨report, p', s'⟩ := x
    simp only [ih]

/-- A surface on which all items are of one size, and which nothing was shown on yet. -/
def uniformSurface : Recorded (Simulated Nat Rat) Nat Rat :=
  ⟨.blank ⟨⟨10, none, ⟨0, 0⟩⟩, none, []⟩, []⟩

/-- Twenty items are shown, and one far down the list is brought into view, by corrections that the
host echoes. -/
def echoedCorrections : List (Move Nat Rat) :=
  [.input (.setTotal 20), .input (.setViewport 20 30), .frame 0, .input (.scrollToIndex 15 .start),
    .frame 16, .echo, .frame 32, .echo]

/-- Twenty items are shown, and then a scroll to one of them is to be eased. -/
def easedScroll : List (Move Nat Rat) :=
  [.input (.setTotal 20), .input (.setViewport 20 30), .frame 0,
    .input (.smoothScrollToIndex 15 .start 0 100 .linear)]

/-- The item is brought into view in three frames, whether the corrections are echoed or not.  After
an eased scroll with an echo the surface is where it is if the host ends the eased scroll. -/
theorem echoes_end_animation_only_of_corrections : ∃ p : Presenter Nat Rat,
    ((p.play Simulated.surface.recorded uniformSurface echoedCorrections).toOption.any fun x =>
        x.1.length == 3 && x.2.2.surface.offset == 150) = true ∧
      p.play Simulated.surface.recorded uniformSurface echoedCorrections =
        p.play Simulated.surface.recorded uniformSurface
          (echoedCorrections.filter fun m => !m.isEcho) ∧
      p.play Simulated.surface.recorded uniformSurface (easedScroll ++ [.echo, .frame 50]) =
        p.play Simulated.surface.recorded uniformSurface
          (easedScroll ++ [.input .cancelAnimation, .frame 50]) := by
  have htest : ((ofOptions (⟨10, 5, 0, .vertical, true, 1⟩ : Options Rat) id true).toOption.any
      fun p => !p.isAnimating && (p.play Simulated.surface.recorded uniformSurface
        echoedCorrections).toOption.any fun x =>
          x.1.length == 3 && x.2.2.surface.offset == 150) = true := by
    decide +kernel
  obtain ⟨p, -, htest⟩ := exists_ok_of_any htest
  rw [Bool.and_eq_true, Bool.not_eq_true'] at htest
  obtain ⟨hidle, hplay⟩ := htest
  have hcalm : p.Undisturbed Simulated.surface.recorded uniformSurface echoedCorrections :=
    undisturbed_of_not_eases _ _ hidle (by decide)
  obtain ⟨-, -, hfree⟩ :=
    p.echoes_end_animation_only Simulated.surface.recorded uniformSurface echoedCorrections
  obtain ⟨-, heased, -⟩ := p.echoes_end_animation_only Simulated.surface.recorded uniformSurface
    (easedScroll ++ [.echo, .frame 50])
  exact ⟨p, hplay, hfree hcalm, heased⟩

/-- A scroll is eased over a hundred milliseconds, and halfway through a frame takes the surface
half the way.  If the host echoes the scroll position before that frame, the eased scroll has ended
and the frame takes the surface nowhere. -/
theorem Reachable.echo_ends_animation : ∃ (p p₁ p₂ : Presenter Nat Rat)
    (s s₁ s₂ : Recorded (Simulated Nat Rat) Nat Rat) (reports₁ reports₂ : List (FrameReport Rat)),
    Reachable Function.Injective (fun _ => True) p ∧ p.isAnimating = true ∧
      p.play Simulated.surface.recorded s [.frame 50] = .ok (reports₁, p₁, s₁) ∧
      p.play Simulated.surface.recorded s [.echo, .frame 50] = .ok (reports₂, p₂, s₂) ∧
      p₁.isAnimating = true ∧ p₂.isAnimating = false ∧ s₁.surface.offset = 75 ∧
      s₂.surface.offset = 0 ∧ reports₁ ≠ reports₂ := by
  have htest : ((ofOptions (⟨10, 5, 0, .vertical, true, 1⟩ : Options Rat) id true).toOption.any
      fun p => (p.play Simulated.surface.recorded uniformSurface easedScroll).toOption.any fun x =>
        x.2.1.isAnimating &&
          (x.2.1.play Simulated.surface.recorded x.2.2 [.frame 50]).toOption.any fun y =>
            (x.2.1.play Simulated.surface.recorded x.2.2 [.echo, .frame 50]).toOption.any fun z =>
              decide (y.2.1.isAnimating = true ∧ z.2.1.isAnimating = false ∧
                y.2.2.surface.offset = 75 ∧ z.2.2.surface.offset = 0 ∧ y.1 ≠ z.1)) = true := by
    decide +kernel
  obtain ⟨p₀, hstart, htest⟩ := exists_ok_of_any htest
  obtain ⟨⟨reports, p, s⟩, hplay, htest⟩ := exists_ok_of_any htest
  rw [Bool.and_eq_true] at htest
  obtain ⟨hanimating, htest⟩ := htest
  obtain ⟨⟨reports₁, p₁, s₁⟩, hplain, htest⟩ := exists_ok_of_any htest
  obtain ⟨⟨reports₂, p₂, s₂⟩, hechoed, htest⟩ := exists_ok_of_any htest
  have hmoves : ∀ m ∈ easedScroll, m.Admissible Function.Injective := by
    simp [easedScroll, Move.Admissible, Request.Admissible, Index.limit]
  have hinitial : Reachable Function.Injective (fun _ => True) p₀ :=
    .start Function.injective_id hstart
  have hp := hinitial.play (fun _ _ _ _ => trivial) hmoves hplay
  exact ⟨p, p₁, p₂, s, s₁, s₂, reports₁, reports₂, hp, hanimating, hplain, hechoed,
    of_decide_eq_true htest⟩

end Presenter

end VirtualList
