import Transcode.Program.Batch
import Transcode.Proofs.World

/-! # Runs on worlds that end well -/

namespace Transcode.World

variable {α β ε : Type} {w w' : World}

/-- A run on a world that ends without a failure, with its result and the world it leaves. -/
def Yields (w : World) (x : ExceptT Failure (StateM World) α) (a : α) (w' : World) : Prop :=
  x.run.run w = (.ok a, w')

theorem yields_pure_iff {a b : α} : w.Yields (pure a) b w' ↔ a = b ∧ w = w' := by
  change (Except.ok a, w) = (Except.ok b, w') ↔ _
  rw [Prod.mk.injEq, Except.ok.injEq]

/-- One step after the other. -/
theorem yields_bind_iff {x : ExceptT Failure (StateM World) α}
    {f : α → ExceptT Failure (StateM World) β} {b : β} :
    w.Yields (x >>= f) b w' ↔ ∃ a w₁, w.Yields x a w₁ ∧ w₁.Yields (f a) b w' := by
  rw [Yields, ExceptT.run_bind, StateT.run_bind]
  rcases hx : x.run.run w with ⟨failure | a, w₁⟩
  · constructor
    · intro h
      cases h
    · rintro ⟨a, w₂, ha, -⟩
      cases hx.symm.trans ha
  · constructor
    · exact fun h => ⟨a, w₁, hx, h⟩
    · rintro ⟨a', w₂, ha, h⟩
      cases hx.symm.trans ha
      exact h

theorem Yields.run_bind {x : ExceptT Failure (StateM World) α} {a : α} (h : w.Yields x a w')
    (f : α → ExceptT Failure (StateM World) β) : (x >>= f).run.run w = (f a).run.run w' := by
  rw [ExceptT.run_bind, StateT.run_bind, show x.run.run w = (.ok a, w') from h]
  rfl

theorem yields_lift_iff {x : StateM World α} {a : α} :
    w.Yields (liftM x) a w' ↔ x.run w = (a, w') := by
  change (Except.ok (x.run w).1, (x.run w).2) = (Except.ok a, w') ↔ x.run w = (a, w')
  rw [Prod.mk.injEq, Except.ok.injEq, Prod.ext_iff]

theorem yields_attempt_iff {x : StateM World (Except ε α)} {failure : ε → Failure} {a : α} :
    w.Yields (Batch.attempt x failure) a w' ↔ x.run w = (.ok a, w') := by
  change ((x.run w).1.mapError failure, (x.run w).2) = (Except.ok a, w') ↔ x.run w = (.ok a, w')
  rw [Prod.mk.injEq, Prod.ext_iff]
  cases (x.run w).1 <;> simp [Except.mapError]

theorem yields_present (w : World) (events : List Event) :
    w.Yields (forIn events PUnit.unit fun event _ => do
      liftM (World.host.present event)
      return ForInStep.yield PUnit.unit) PUnit.unit (events.foldl present w) := by
  induction events generalizing w with
  | nil => exact yields_pure_iff.mpr ⟨rfl, rfl⟩
  | cons event events ih =>
    simp only [List.forIn_cons, bind_assoc, pure_bind]
    exact yields_bind_iff.mpr ⟨(), w.present event, yields_lift_iff.mpr rfl, ih _⟩

theorem yields_throw_iff {failure : Failure} {a : α} :
    w.Yields (throw failure) a w' ↔ False := by
  refine iff_false_intro fun h => ?_
  cases h

theorem yields_print_iff {text : String} {u : Unit} :
    w.Yields (liftM (host.print text)) u w' ↔ w.see (.printed text) = w' := by
  rw [yields_lift_iff]
  exact ⟨congrArg Prod.snd, fun h => Prod.ext rfl h⟩

theorem yields_log_iff {level : LogLevel} {message : String} {u : Unit} :
    w.Yields (liftM (host.log level message)) u w' ↔ w.note level message = w' := by
  rw [yields_lift_iff]
  exact ⟨congrArg Prod.snd, fun h => Prod.ext rfl h⟩

theorem yields_forIn_log_iff {level : LogLevel} {as : List α} {message : α → String}
    {u : PUnit} :
    w.Yields (forIn as PUnit.unit fun a _ => do
      liftM (host.log level (message a))
      return ForInStep.yield PUnit.unit) u w' ↔
      as.foldl (fun w a => w.note level (message a)) w = w' := by
  induction as generalizing w with
  | nil => exact yields_pure_iff.trans (and_iff_right rfl)
  | cons a as ih =>
    simp only [List.forIn_cons, bind_assoc, pure_bind, yields_bind_iff, yields_log_iff, ih,
      List.foldl_cons]
    exact ⟨fun ⟨_, _, hfirst, hrest⟩ => hfirst ▸ hrest, fun h => ⟨(), _, rfl, h⟩⟩

end Transcode.World

namespace Transcode.Batch

open World

variable {w w' : World} {inv : Invocation} {directory : Path} {order : Order}

/-- The steps in which an order is prepared. -/
theorem yields_prepare_iff :
    w.Yields (prepare World.host inv directory) order w' ↔
      ∃ (o : Options) (w₁ w₂ w₃ w₄ w₅ : World),
        (Config.load World.host directory).run w = (.ok order.config, w₁) ∧
        (Options.load World.host (Document.options.file directory) Registry.builtin).run w₁ =
          (.ok o, w₂) ∧
        (inv.files.isEmpty && !inv.saveDefaults) = false ∧
        w₂.Yields (meetEncoder World.host inv.dryRun) () w₃ ∧
        (w₃.see (.printed windowTitle)).Yields (selectProfile World.host
          (.ofRequest Registry.builtin (inv.codec.or order.config.profile) inv.skipMenu))
          order.profile w₄ ∧
        (w₄.note .info ("Selected profile " ++ order.profile.display)).Yields
          (settle World.host inv o order.profile) order.settings w₅ ∧
        if inv.saveDefaults then
          w₅.Yields (saveDefaults World.host (Document.options.file directory) o order.profile
            order.settings) () w'
        else w₅ = w' := by
  have hsaved (c : Config) (o : Options) (p : Profile) (s : Settings) (w₅ : World) :
      w₅.Yields (do
        if inv.saveDefaults then
          saveDefaults World.host (Document.options.file directory) o p s
        return (⟨c, p, s⟩ : Order)) order w' ↔ ⟨c, p, s⟩ = order ∧
      if inv.saveDefaults then
        w₅.Yields (saveDefaults World.host (Document.options.file directory) o p s) () w'
      else w₅ = w' := by
    split
    · simp only [yields_bind_iff, yields_pure_iff]
      constructor
      · rintro ⟨⟨⟩, w₆, hsave, horder, rfl⟩
        exact ⟨horder, hsave⟩
      · rintro ⟨horder, hsave⟩
        exact ⟨(), w', hsave, horder, rfl⟩
    · exact yields_pure_iff
  cases hfiles : inv.files.isEmpty && !inv.saveDefaults with
  | true =>
    simp only [prepare, hfiles, if_true, yields_bind_iff, yields_throw_iff, false_and, and_false,
      exists_false, Bool.true_eq_false]
  | false =>
    simp only [prepare, hfiles, Bool.false_eq_true, if_false, yields_bind_iff, yields_attempt_iff,
      yields_print_iff, yields_log_iff, hsaved]
    constructor
    · rintro ⟨c, w₁, hconfig, o, w₂, hoptions, ⟨⟩, w₃, hencoder, ⟨⟩, _, rfl, p, w₄, hselect, ⟨⟩, _,
        rfl, s, w₅, hsettle, rfl, hsave⟩
      exact ⟨o, w₁, w₂, w₃, w₄, w₅, hconfig, hoptions, trivial, hencoder, hselect, hsettle, hsave⟩
    · rintro ⟨o, w₁, w₂, w₃, w₄, w₅, hconfig, hoptions, -, hencoder, hselect, hsettle, hsave⟩
      exact ⟨order.config, w₁, hconfig, o, w₂, hoptions, (), w₃, hencoder, (), _, rfl,
        order.profile, w₄, hselect, (), _, rfl, order.settings, w₅, hsettle, rfl, hsave⟩

/-- The steps in which inputs are gathered. -/
theorem yields_gather_iff {inputs : List Path} :
    w.Yields (gather World.host inv order) inputs w' ↔ ∃ w₁ w₂ : World,
      (order.profile.storedFaults order.settings).foldl
        (fun w fault => w.note .warning fault.message) w = w₁ ∧
      (if inv.dryRun then w₁ = w₂
        else (World.host.createDirectories (outputDirectory inv order)).run w₁ = (.ok (), w₂)) ∧
      w₂.Yields (findInputs World.host inv.files) inputs w' := by
  simp only [gather, yields_bind_iff, yields_forIn_log_iff]
  cases inv.dryRun with
  | true =>
    simp only [Bool.not_true, Bool.false_eq_true, if_false, if_true]
    constructor
    · rintro ⟨_, w₁, hwarned, hfind⟩
      exact ⟨w₁, w₁, hwarned, rfl, hfind⟩
    · rintro ⟨w₁, w₂, hwarned, rfl, hfind⟩
      exact ⟨⟨⟩, w₁, hwarned, hfind⟩
  | false =>
    simp only [Bool.not_false, if_true, yields_bind_iff, yields_attempt_iff, Bool.false_eq_true,
      if_false]
    constructor
    · rintro ⟨_, w₁, hwarned, _, w₂, hcreate, hfind⟩
      exact ⟨w₁, w₂, hwarned, hcreate, hfind⟩
    · rintro ⟨w₁, w₂, hwarned, hcreate, hfind⟩
      exact ⟨⟨⟩, w₁, hwarned, (), w₂, hcreate, hfind⟩

theorem ne_nil_of_findInputs {paths inputs : List Path}
    (h : w.Yields (findInputs World.host paths) inputs w') : inputs ≠ [] := by
  simp only [findInputs, yields_bind_iff] at h
  obtain ⟨found, w₁, -, _, w₂, -, _, w₃, -, hend⟩ := h
  split at hend
  · obtain ⟨_, _, hthrow, -⟩ := yields_bind_iff.mp hend
    exact (yields_throw_iff.mp hthrow).elim
  · rename_i hfiles
    obtain ⟨rfl, -⟩ := yields_pure_iff.mp hend
    simpa using hfiles

end Transcode.Batch
