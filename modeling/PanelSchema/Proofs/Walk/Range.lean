import PanelSchema.Proofs.Catalog
import PanelSchema.Proofs.Walk.Frames
import PanelSchema.Proofs.Walk.History

/-!
The integers of a walk. Depths of indentation are clamped, and the counters of a layout are
bounded by its number of sections.
-/

namespace PanelSchema

open Syntax (Expr)

/-! ### Depths of indentation -/

/-- The depth of a frame is an integer of a model. -/
def Frame.InRange (f : Frame) : Prop :=
  IsInt f.depth

theorem Frame.InRange.of_depth {f g : Frame} (hf : f.InRange) (h : g.depth = f.depth) :
    g.InRange := by
  unfold Frame.InRange
  rw [h]
  exact hf

theorem Frame.inRange_indentBy (f : Frame) (n : Int) : (f.indentBy n).InRange :=
  isInt_clampInt _

namespace Walk

theorem inRange_assignIndent {c : Catalog} {f : Frame} (value : Expr) (hf : f.InRange) :
    (assignIndent c value f).InRange := by
  unfold assignIndent
  dsimp only
  split
  · split
    · split
      · exact f.inRange_indentBy _
      · exact f.inRange_indentBy _
      · exact hf
    · split
      · exact isInt_floatToInt _
      · exact hf
  · split
    · exact isInt_floatToInt _
    · exact hf

theorem depth_normalize (w : Walk) (f : Frame) : (w.normalize f).depth = f.depth := by
  unfold normalize
  split <;> rfl

end Walk

namespace Point

variable {s : Setting} {c c' : Point}

theorem inRange_after (call : Call) (h : c.frame.InRange) : (c.after s call).1.InRange := by
  obtain ⟨n, heq⟩ | heq | heq := frame_after s c call
  · rw [heq]
    exact c.frame.inRange_indentBy n
  · rw [heq]
    exact h
  · rw [heq]
    exact (by decide : IsInt 0)

theorem kept_inRange (s : Setting) : Kept s fun _ f => f.InRange where
  normalize _ hf := hf.of_depth (Walk.depth_normalize _ _)
  indentBy n _ := Frame.inRange_indentBy _ n
  assignIndent value hf := Walk.inRange_assignIndent value hf
  branches hf h := by
    obtain ⟨asked, -, ⟨m, name, home, -, -, rfl⟩ | rfl⟩ := Walk.narrowed_of_branches h
    · exact ⟨hf.of_depth rfl, hf⟩
    · exact ⟨hf.of_depth rfl, hf.of_depth rfl⟩
  caseFrames hf h g hg := by
    obtain rfl | ⟨path, values, rfl⟩ := Walk.narrowed_of_caseFrames h hg
    · exact hf
    · exact hf.of_depth rfl
  after _ _ hf := inRange_after _ hf
  step _ hf := hf

end Point

/-! ### Counters of a layout -/

/-- As many orders are drawn and as many sections lie above one another as there are
sections. -/
structure Layout.Counted (l : Layout) : Prop where
  nonneg : 0 ≤ l.nextOrder
  order : l.nextOrder ≤ l.sections.length
  depth : ∀ s ∈ l.sections, s.depth < l.sections.length

namespace Layout

theorem Counted.update {l : Layout} (h : l.Counted) (handle : Nat)
    {g : SectionLayout → SectionLayout} (hg : ∀ s, (g s).depth = s.depth) :
    (l.update handle g).Counted := by
  have hlength := l.length_update handle g
  refine ⟨h.nonneg, hlength ▸ h.order, ?_⟩
  intro s hs
  have hdepths := map_update hg l handle
  have hmem : s.depth ∈ l.sections.map (·.depth) := by
    rw [← hdepths]
    exact List.mem_map_of_mem hs
  obtain ⟨t, ht, heq⟩ := List.mem_map.1 hmem
  rw [hlength, ← heq]
  exact h.depth t ht

theorem Counted.depth_fresh {l : Layout} (h : l.Counted) (name : String)
    (label parent : Option String) (order : Option Int) :
    (l.fresh name label parent order).depth ≤ l.sections.length := by
  unfold fresh
  dsimp only
  cases habove : (parent.bind l.handle?).bind l.get? with
  | none => exact Nat.zero_le _
  | some above =>
    obtain ⟨handle, -, hget⟩ := Option.bind_eq_some_iff.1 habove
    exact h.depth above (List.mem_of_getElem? hget)

theorem Counted.visit {l : Layout} (h : l.Counted) (name : String)
    (label parent : Option String) (order : Option Int) :
    (l.visit name label parent order).1.Counted := by
  unfold Layout.visit
  split
  · exact h.update _ (inner_revisit label order).depth
  · have hnonneg := h.nonneg
    have horder := h.order
    refine ⟨?_, ?_, ?_⟩
    · dsimp only
      split <;> omega
    · simp only [List.length_append, List.length_singleton]
      split <;> omega
    · intro s hs
      rw [List.length_append, List.length_singleton]
      rcases List.mem_append.1 hs with hs | hs
      · exact Nat.lt_succ_of_lt (h.depth s hs)
      · rw [List.mem_singleton.1 hs]
        exact Nat.lt_succ_of_le (h.depth_fresh name label parent order)

theorem Counted.place {l : Layout} (h : l.Counted) (home i : Nat) (unconditional : Bool) :
    (l.place home i unconditional).Counted := by
  -- A record of where a property is bears on no counter.
  have hrecord : ∀ {l' : Layout} p, l'.Counted → (l'.record i p).Counted :=
    fun _ h' => ⟨h'.nonneg, h'.order, h'.depth⟩
  have hpush : ∀ {l' : Layout} home, l'.Counted → (l'.push home i).Counted :=
    fun home h' => h'.update home fun _ => rfl
  have hwithdraw : ∀ home, (l.withdraw home i).Counted :=
    fun home => h.update home fun _ => rfl
  unfold Layout.place
  split
  · exact h
  · split
    · exact hrecord _ (hpush home h)
    · split
      · exact hrecord _ (hpush home (hwithdraw _))
      · exact h

end Layout

namespace Point

variable {s : Setting} {c c' : Point}

theorem Touch.counted {m m' : ModuleDraft} (h : Touch s c m m') (hm : m.layout.Counted) :
    m'.layout.Counted := by
  cases h with
  | declared label order h => exact hm.visit _ _ _ _
  | @shown d h =>
    unfold ModuleDraft.shown
    dsimp only
    split
    · exact hm.place _ _ _
    · exact hm
  | hinted id hints h => exact hm

/-- The counters of the module being built are bounded. -/
def Counted (c : Point) : Prop :=
  ∀ m, c.walk.current = some m → m.layout.Counted

theorem Step.counted (h : Step s c c') (hc : c.Counted) : c'.Counted := by
  intro m hm
  cases h.change with
  | keep hsame hact => exact hc m (hsame.current ▸ hm)
  | start name keywords hact hmodules hcurrent hgeneration =>
    rw [hcurrent, Option.some_inj] at hm
    have hempty : (Layout.Counted {}) := ⟨by decide, by decide, by simp⟩
    exact hm ▸ hempty.visit name none none none
  | touch htouch hm₀ hm' hmodules hgeneration =>
    rw [hm', Option.some_inj] at hm
    exact hm ▸ htouch.counted (hc _ hm₀)

theorem Reaches.counted (h : Reaches s c c') (hc : c.Counted) : c'.Counted := by
  induction h with
  | refl => exact hc
  | tail _ hstep ih => exact hstep.counted ih

end Point

end PanelSchema
