import Circuitry.Proofs.Catalogue
import Circuitry.Proofs.Execution

namespace Circuitry

namespace Width

variable {w : Int}

theorem toNat_mask (low : 0 ≤ w) (high : w ≤ 64) : (mask w).toNat = 2 ^ w.toNat - 1 := by
  rcases Int.lt_or_eq_of_le high with lt | rfl
  · exact toNat_mask_of_lt low lt
  · exact toNat_mask_of_ge (Int.le_refl 64)

end Width

theorem Word.toNat_eq_zero_iff {v : UInt64} : v.toNat = 0 ↔ v = 0 := UInt64.toNat_inj (b := 0)

theorem Expr.value?_increment {e : Entry} {σ : Valuation} {width : Int} (h : 0 < width) {x : Expr}
    {v : Nat} (hx : x.value? e σ = some v) :
    (Expr.binary "+" x (.lit width 1 false)).value? e σ = some (v + 1) := by
  have one : (Width.truncate width 1).toNat = 1 := by rw [Width.truncate_one h]; rfl
  simp [Expr.value?, hx, one, binaryValue?]

theorem Block.faithful_of_parts {c : Composite} {fs : List (Field × Block)} {st : State}
    (opened : c.isClosed = false) (updates : (composite c fs).updateAll.fault = none)
    (own : (composite c fs).AtRest st → Scope.Agrees ⟨[], c, fs⟩ st)
    (inside : Inside (·.Faithful st) fs) : (composite c fs).Faithful st :=
  faithful_of_fields opened updates own
    (inside.forall_mem (fun _ => faithful_of_scopes_eq_nil) fun _ h => h)

theorem Block.namedAtoms_of_outline {b : Block} (o : Outline) {names : List (String × Signal)}
    (shape : b.namedAtoms = o.names.zipWith (fun spot row => (spot.name, .signal row.2)) names)
    (same : o.names.map Spot.name = names.map Prod.fst) :
    b.namedAtoms = names.map fun row => (row.1, .signal row.2) := by
  have rows := congrArg (fun ns => ns.zipWith (fun n row => (n, Atom.signal row.2)) names) same
  simp only [List.zipWith_map_left, List.zipWith_self] at rows
  rw [shape, rows]

theorem Denotes.value?_all {e : Entry} {σ : Valuation} {st : State} {n : String} {g : Signal}
    (h : Denotes e σ st n g) (low : 0 ≤ g.width) (high : g.width ≤ 64)
    (fits : Width.truncate g.width (st.val.get g.net) = st.val.get g.net) :
    (Expr.unary "&" (.ref n)).value? e σ =
      some (if st.val.get g.net = Width.mask g.width then 1 else 0) := by
  have small : (st.val.get g.net).toNat % 2 ^ g.width.toNat = (st.val.get g.net).toNat :=
    (Width.toNat_truncate low _).symm.trans (congrArg UInt64.toNat fits)
  simp only [Expr.value?, h.value, Expr.width?, h.width, Expr.unaryValue?]
  simp [small, ← Width.toNat_mask low high, UInt64.toNat_inj]

section Designs

variable {net cell : Nat} {width : Int} {e : Entry} {σ : Valuation} {st : State}

namespace Adder

def names (x : Adder) : List (String × Signal) := [("a", x.a), ("b", x.b), ("sum", x.sum)]

theorem namedAtoms_placed (net : Nat) (width : Int) :
    (placed net width).block.namedAtoms =
      (placed net width).names.map fun row => (row.1, .signal row.2) :=
  Block.namedAtoms_of_outline outline rfl (by simp [outline, names, Spot.name])

theorem runAll_body {x : Adder} (hx : x = placed net width) (low : 0 < width) (high : width < 64)
    (names : ∀ row ∈ x.names, Denotes e σ st row.1 row.2) (rest : x.block.AtRest st) :
    Stmt.runAll e σ body = some σ := by
  simp only [Adder.names, List.forall_mem_cons] at names
  obtain ⟨a, b, sum, -⟩ := names
  have sumWidth : x.sum.width = width + 1 := by
    rw [hx]
    exact Width.wrap_eq_self (by omega) (by omega)
  have value : (Expr.binary "+" (.ref "a") (.ref "b")).value? e σ =
      some ((st.val.get x.a.net).toNat + (st.val.get x.b.net).toNat) := by
    simp [Expr.value?, a.value, b.value, Expr.binaryValue?]
  have kept := sum.run_assign value (by
    rw [rest.put (.head _)]
    exact Width.toNat_truncate_add (by omega) (by omega) _ _)
  rw [body, Stmt.runAll_cons kept, Stmt.runAll]

theorem faithful (net : Nat) (low : 0 < width) (high : width < 64) (st : State) :
    (placed net width).block.Faithful st := by
  apply Block.faithful_of_parts rfl rfl
  · intro rest
    exact Scope.agrees_of_names rfl rfl (namedAtoms_placed net width) fun _ names =>
      runAll_body rfl low high names rest
  · exact .plain rfl (.plain rfl (.plain rfl .nil))

end Adder

theorem FlipFlop.faithful (net cell : Nat) (width : Int) (st : State) :
    (placed net cell width).block.Faithful st := by
  apply Block.faithful_of_parts rfl rfl
  · rintro - body ⟨⟩
  · exact .plain rfl (.plain rfl (.plain rfl .nil))

namespace Counter

def names (x : Counter) : List (String × Signal) :=
  [("clock", x.clock), ("enable", x.enable), ("count", x.count), ("ff$clock", x.register.clock),
    ("ff$d", x.register.d), ("ff$q", x.register.q)]

theorem namedAtoms_placed (net cell : Nat) (width : Int) :
    (placed net cell width).block.namedAtoms =
      (placed net cell width).names.map fun row => (row.1, .signal row.2) :=
  Block.namedAtoms_of_outline outline rfl (by simp [outline, names, Spot.name])

theorem runAll_body {x : Counter} (hx : x = placed net cell width) (low : 0 < width)
    (high : width ≤ 64) (names : ∀ row ∈ x.names, Denotes e σ st row.1 row.2)
    (rest : x.block.AtRest st) : Stmt.runAll e σ (body width) = some σ := by
  simp only [Counter.names, List.forall_mem_cons] at names
  obtain ⟨clock, enable, count, ffClock, d, q, -⟩ := names
  have clockWidth : x.register.clock.width = 1 := by rw [hx]; rfl
  have dWidth : x.register.d.width = width := by rw [hx]; rfl
  have countWidth : x.count.width = width := by rw [hx]; rfl
  have stores : .put x.register.d (.ite (.var x.enable.net) (.add (.var x.register.q.net) (.lit 1))
      (.var x.register.q.net)) ∈ x.block.updateAll.steps := .tail _ (.head _)
  have heldD : st.val.get x.register.d.net = Width.truncate x.register.d.width
      (if st.val.get x.enable.net = 0 then st.val.get x.register.q.net
        else st.val.get x.register.q.net + 1) := rest.put stores
  have next : (st.val.get x.register.d.net).toNat =
      if (st.val.get x.enable.net).toNat = 0 then
        (st.val.get x.register.q.net).toNat % 2 ^ x.register.d.width.toNat
      else ((st.val.get x.register.q.net).toNat + 1) % 2 ^ x.register.d.width.toNat := by
    rw [heldD]
    simp only [Word.toNat_eq_zero_iff]
    split
    · exact Width.toNat_truncate (by omega) _
    · exact Width.toNat_truncate_add (by omega) (by omega) _ _
  have keptClock := rest.run_copy ffClock clock (by omega) (.head _)
  have keptCount := rest.run_copy count q (by omega) (.tail _ (.tail _ (.head _)))
  -- The register is given the old count first, and the next one where the counter is enabled.
  have first := Stmt.run_assign d.width q.value?_ref
  have second : Stmt.run e _ (.cond (.ref "enable") [.assign "ff$d" _] []) = some σ :=
    Stmt.run_cond_assign _ d.width (enable.update (by decide) _).value?_ref
      (Expr.value?_increment low (q.update (by decide) _).value?_ref)
      (d.value.trans (congrArg some next))
  rw [body, Stmt.runAll_cons keptClock, Stmt.runAll_cons first, Stmt.runAll_cons second,
    Stmt.runAll_cons keptCount, Stmt.runAll]

theorem faithful (net cell : Nat) (low : 0 < width) (high : width ≤ 64) (st : State) :
    (placed net cell width).block.Faithful st := by
  apply Block.faithful_of_parts rfl rfl
  · intro rest
    exact Scope.agrees_of_names rfl rfl (namedAtoms_placed net cell width) fun _ names =>
      runAll_body rfl low high names rest
  · exact .plain rfl (.plain rfl (.plain rfl (.part (FlipFlop.faithful _ _ _ st) .nil)))

end Counter

namespace Increment

def names (x : Increment) : List (String × Signal) :=
  [("in$data", x.input.data), ("in$valid", x.input.valid), ("in$ready", x.input.ready),
    ("out$data", x.output.data), ("out$valid", x.output.valid), ("out$ready", x.output.ready)]

theorem namedAtoms_placed (net : Nat) (width : Int) :
    (placed net width).block.namedAtoms =
      (placed net width).names.map fun row => (row.1, .signal row.2) :=
  Block.namedAtoms_of_outline outline rfl (by simp [outline, names, Spot.name, Path.flat_cons])

theorem runAll_body {x : Increment} (hx : x = placed net width) (low : 0 < width)
    (high : width ≤ 64) (names : ∀ row ∈ x.names, Denotes e σ st row.1 row.2)
    (rest : x.block.AtRest st) : Stmt.runAll e σ (body width) = some σ := by
  simp only [Increment.names, List.forall_mem_cons] at names
  obtain ⟨inData, inValid, inReady, outData, outValid, outReady, -⟩ := names
  have dataWidth : x.output.data.width = width := by rw [hx]; rfl
  have validWidth : x.output.valid.width = 1 := by rw [hx]; rfl
  have readyWidth : x.input.ready.width = 1 := by rw [hx]; rfl
  have keptData := outData.run_assign (Expr.value?_increment low inData.value?_ref) (by
    rw [rest.put (.head _)]
    exact Width.toNat_truncate_add (by omega) (by omega) _ _)
  have keptValid := rest.run_copy outValid inValid (by omega) (.tail _ (.head _))
  have keptReady := rest.run_copy inReady outReady (by omega) (.tail _ (.tail _ (.head _)))
  rw [body, Stmt.runAll_cons keptData, Stmt.runAll_cons keptValid, Stmt.runAll_cons keptReady,
    Stmt.runAll]

theorem faithful (net : Nat) (low : 0 < width) (high : width ≤ 64) (st : State) :
    (placed net width).block.Faithful st := by
  apply Block.faithful_of_parts rfl rfl
  · intro rest
    exact Scope.agrees_of_names rfl rfl (namedAtoms_placed net width) fun _ names =>
      runAll_body rfl low high names rest
  · exact .plain rfl (.plain rfl .nil)

end Increment

namespace Blinker

def names (x : Blinker) : List (String × Signal) :=
  [("clock", x.clock), ("tick", x.tick), ("led", x.led), ("state", x.state),
    ("ff$clock", x.register.clock), ("ff$d", x.register.d), ("ff$q", x.register.q)]

theorem namedAtoms_placed (net cell : Nat) :
    (placed net cell).block.namedAtoms =
      (placed net cell).names.map fun row => (row.1, .signal row.2) :=
  Block.namedAtoms_of_outline outline rfl (by simp [outline, names, Spot.name])

def constants : List EnumConstant :=
  [⟨"BlinkState", stateType.label "Off", 0⟩, ⟨"BlinkState", stateType.label "On", 1⟩]

theorem runAll_item {x : Blinker} (led : Denotes e σ st "led" x.led)
    (tick : Denotes e σ st "tick" x.tick) (d : Denotes e σ st "ff$d" x.register.d) {bit : UInt64}
    {label : String} {u o : Nat} (ordinal : e.ordinal? label = some o)
    (heldLed : (st.val.get x.led.net).toNat = (Width.truncate 1 bit).toNat % 2 ^ x.led.width.toNat)
    (heldD : (st.val.get x.register.d.net).toNat =
      if (st.val.get x.tick.net).toNat = 0 then u else o % 2 ^ x.register.d.width.toNat) :
    Stmt.runAll e (Function.update σ "ff$d" (some u))
      [.assign "led" (.lit 1 bit false), .cond (.ref "tick") [.assign "ff$d" (.enum label)] []] =
        some σ := by
  have lit : (Expr.lit 1 bit false).value? e (Function.update σ "ff$d" (some u)) =
      some (Width.truncate 1 bit).toNat := rfl
  have next : (Expr.enum label).value? e (Function.update σ "ff$d" (some u)) = some o := by
    rw [Expr.value?, ordinal]
  have keptLed := (led.update (by decide) _).run_assign lit heldLed
  have keptD := Stmt.run_cond_assign u d.width (tick.update (by decide) _).value?_ref next
    (d.value.trans (congrArg some heldD))
  rw [Stmt.runAll_cons keptLed, Stmt.runAll_cons keptD, Stmt.runAll]

theorem runAll_body {x : Blinker} (hx : x = placed net cell)
    (off : e.ordinal? (stateType.label "Off") = some 0)
    (on : e.ordinal? (stateType.label "On") = some 1)
    (names : ∀ row ∈ x.names, Denotes e σ st row.1 row.2) (rest : x.block.AtRest st) :
    Stmt.runAll e σ body = some σ := by
  simp only [Blinker.names, List.forall_mem_cons] at names
  obtain ⟨clock, tick, led, state, ffClock, d, q, -⟩ := names
  have clockWidth : x.register.clock.width = 1 := by rw [hx]; rfl
  have stateWidth : x.state.width = 1 := by rw [hx]; rfl
  have ledWidth : x.led.width = 1 := by rw [hx]; rfl
  have dWidth : x.register.d.width = 1 := by rw [hx]; rfl
  have copies : .put x.state (.var x.register.q.net) ∈ x.block.updateAll.steps := .tail _ (.head _)
  have shows : .flag x.led (.var x.state.net) ∈ x.block.updateAll.steps :=
    .tail _ (.tail _ (.head _))
  have stores : .put x.register.d x.nextState ∈ x.block.updateAll.steps :=
    .tail _ (.tail _ (.tail _ (.head _)))
  have heldLed := rest.flag (by omega) shows
  have heldD := rest.put stores
  have bit : st.val.get x.state.net = 0 ∨ st.val.get x.state.net = 1 := by
    have small : (st.val.get x.state.net).toNat < 2 := by
      rw [rest.put copies, stateWidth, Width.toNat_truncate (by decide)]
      exact Nat.mod_lt _ (by decide)
    rw [← UInt64.toNat_inj, ← UInt64.toNat_inj]
    change _ = 0 ∨ _ = 1
    omega
  have keptClock := rest.run_copy ffClock clock (by omega) (.head _)
  have keptState := rest.run_copy state q (by omega) copies
  have first := Stmt.run_assign d.width state.value?_ref
  have labelOff (τ : Valuation) : (Expr.enum (stateType.label "Off")).value? e τ = some 0 := by
    rw [Expr.value?, off]
  have labelOn (τ : Valuation) : (Expr.enum (stateType.label "On")).value? e τ = some 1 := by
    rw [Expr.value?, on]
  rw [body, Stmt.runAll_cons keptClock, Stmt.runAll_cons keptState, Stmt.runAll_cons first]
  refine (Stmt.runAll_cons ?_ []).trans rfl
  rw [Stmt.run_case (state.update (by decide) _).value?_ref, Stmt.runItems_cons (labelOff _),
    Stmt.runItems_cons (labelOn _)]
  -- One bit leaves no room for the default of the case: the state is off or on.
  rcases bit with zero | one
  · rw [if_pos (by rw [zero]; rfl)]
    apply runAll_item led tick d on
    · rw [heldLed, Word.eval, zero, ledWidth]
      rfl
    · rw [heldD, nextState, dWidth]
      simp only [Word.eval, zero, Word.toNat_eq_zero_iff]
      split <;> rfl
  · rw [if_neg (by rw [one]; decide), if_pos (by rw [one]; rfl)]
    apply runAll_item led tick d off
    · rw [heldLed, Word.eval, one, ledWidth]
      rfl
    · rw [heldD, nextState, dWidth]
      simp only [Word.eval, one, Word.toNat_eq_zero_iff]
      split <;> rfl

theorem faithful (net cell : Nat) (st : State) : (placed net cell).block.Faithful st := by
  apply Block.faithful_of_parts rfl rfl
  · intro rest
    refine Scope.agrees_of_names rfl rfl (namedAtoms_placed net cell) fun top names => ?_
    apply runAll_body rfl _ _ names rest
    · exact (Scope.ordinal?_entry constants rfl top _).trans (by decide +kernel)
    · exact (Scope.ordinal?_entry constants rfl top _).trans (by decide +kernel)
  · exact .plain rfl (.plain rfl (.plain rfl (.plain rfl (.part (FlipFlop.faithful _ _ _ st) .nil))))

end Blinker

theorem ClockGenerator.faithful (net : Nat) (st : State) : (placed net).block.Faithful st := by
  apply Block.faithful_of_parts rfl rfl
  · rintro - body ⟨⟩
  · exact .plain rfl (.plain rfl (.plain rfl .nil))

theorem DiffInput.faithful (net : Nat) (st : State) : (placed net).block.Faithful st := by
  apply Block.faithful_of_parts rfl rfl
  · rintro - body ⟨⟩
  · exact .plain rfl (.plain rfl (.plain rfl .nil))

namespace Blinky

def names (x : Blinky) : List (String × Signal) :=
  [("clock_p", x.clockP), ("clock_n", x.clockN), ("led", x.led), ("locked", x.locked),
    ("clkbuf$p", x.buffer.p), ("clkbuf$n", x.buffer.n), ("clkbuf$out", x.buffer.out),
    ("pll$clock_in", x.generator.clockIn), ("pll$clock_out", x.generator.clockOut),
    ("pll$locked", x.generator.locked), ("div$clock", x.divider.clock),
    ("div$enable", x.divider.enable), ("div$count", x.divider.count),
    ("blink$clock", x.blinker.clock), ("blink$tick", x.blinker.tick), ("blink$led", x.blinker.led)]

theorem namedAtoms_placed (net cell : Nat) (width : Int) :
    (placed net cell width).block.namedAtoms =
      (placed net cell width).names.map fun row => (row.1, .signal row.2) :=
  Block.namedAtoms_of_outline outline rfl (by simp [outline, names, Spot.name])

theorem runAll_body {x : Blinky} (hx : x = placed net cell width) (low : 0 < width)
    (high : width ≤ 64) (names : ∀ row ∈ x.names, Denotes e σ st row.1 row.2)
    (rest : x.block.AtRest st) : Stmt.runAll e σ body = some σ := by
  simp only [Blinky.names, List.forall_mem_cons] at names
  obtain ⟨clockP, clockN, led, locked, bufferP, bufferN, bufferOut, clockIn, clockOut, generated,
    dividerClock, dividerEnable, count, blinkerClock, tick, blinkerLed, -⟩ := names
  have countWidth : x.divider.count.width = width := by rw [hx]; rfl
  have tickWidth : x.blinker.tick.width = 1 := by rw [hx]; rfl
  have counts : .put x.divider.count (.var x.divider.register.q.net) ∈ x.block.updateAll.steps :=
    List.mem_of_getElem? (i := 14) rfl
  have flags : .flag x.blinker.tick
      (.eq (.var x.divider.count.net) (.lit (Width.mask x.divider.count.width))) ∈
        x.block.updateAll.steps := List.mem_of_getElem? (i := 6) rfl
  have heldCount := rest.put counts
  have heldTick := rest.flag (by omega) flags
  have fits : Width.truncate x.divider.count.width (st.val.get x.divider.count.net) =
      st.val.get x.divider.count.net := by rw [heldCount, Width.truncate_truncate]
  have full := count.value?_all (by omega) (by omega) fits
  have ticks := tick.run_assign full (by
    rw [heldTick, tickWidth]
    by_cases whole : st.val.get x.divider.count.net = Width.mask x.divider.count.width
    · simp [Word.eval, whole, Width.truncate_one]
    · simp [Word.eval, whole, Width.truncate_zero])
  rw [body, Stmt.runAll_cons (rest.run_copy bufferP clockP ?_ (.head _)),
    Stmt.runAll_cons (rest.run_copy bufferN clockN ?_ (.tail _ (.head _))),
    Stmt.runAll_cons (rest.run_copy clockIn bufferOut ?_ (List.mem_of_getElem? (i := 2) rfl)),
    Stmt.runAll_cons (rest.run_copy dividerClock clockOut ?_ (List.mem_of_getElem? (i := 3) rfl)),
    Stmt.runAll_cons (rest.run_copy dividerEnable generated ?_ (List.mem_of_getElem? (i := 4) rfl)),
    Stmt.runAll_cons (rest.run_copy blinkerClock clockOut ?_ (List.mem_of_getElem? (i := 5) rfl)),
    Stmt.runAll_cons ticks,
    Stmt.runAll_cons (rest.run_copy led blinkerLed ?_ (List.mem_of_getElem? (i := 7) rfl)),
    Stmt.runAll_cons (rest.run_copy locked generated ?_ (List.mem_of_getElem? (i := 8) rfl)),
    Stmt.runAll]
  all_goals
    rw [hx]
    exact Int.one_pos

theorem faithful (net cell : Nat) (low : 0 < width) (high : width ≤ 64) (st : State) :
    (placed net cell width).block.Faithful st := by
  apply Block.faithful_of_parts rfl rfl
  · intro rest
    exact Scope.agrees_of_names rfl rfl (namedAtoms_placed net cell width) fun _ names =>
      runAll_body rfl low high names rest
  · exact .plain rfl (.plain rfl (.plain rfl (.plain rfl (.part (DiffInput.faithful _ st)
      (.part (ClockGenerator.faithful _ st) (.part (Counter.faithful _ _ low high st)
        (.part (Blinker.faithful _ _ st) .nil)))))))

end Blinky

def Stream.names (place : String) (s : Stream) : List (String × Signal) :=
  [(Path.join place "data", s.data), (Path.join place "valid", s.valid),
    (Path.join place "ready", s.ready)]

namespace PortSet

def names (i : Nat) (x : PortSet) : List (String × Signal) :=
  x.port.names (Value.indexed "ports" i) ++ x.out.names (Value.indexed "outs" i)
    ++ (x.stage.input.names (Path.join (Value.indexed "stages" i) "in")
      ++ x.stage.output.names (Path.join (Value.indexed "stages" i) "out"))

theorem run_body {x : PortSet} (hx : x = placed net width) (low : 0 < width) {b : Block}
    (rest : b.AtRest st) (drives : ∀ d ∈ drives net width, d ∈ b.updateAll.steps) (i : Nat)
    (names : ∀ row ∈ x.names i, Denotes e σ st row.1 row.2) :
    ∀ s ∈ x.body i, s.run e σ = some σ := by
  simp only [PortSet.names, Stream.names, List.forall_mem_append, List.forall_mem_cons] at names
  obtain ⟨⟨⟨portData, portValid, portReady, -⟩, outData, outValid, outReady, -⟩,
    ⟨inData, inValid, inReady, -⟩, stageData, stageValid, stageReady, -⟩ := names
  simp only [PortSet.drives, List.forall_mem_cons] at drives
  obtain ⟨toData, toValid, toReady, fromData, fromValid, fromReady, -⟩ := drives
  subst hx
  have into : ∀ l ∈ ((placed net width).port.sinkBlock.fieldLinks (Value.indexed "ports" i)
      (Path.join (Value.indexed "stages" i) "in")).steps, l.run e σ = some σ := by
    refine List.forall_mem_cons.mpr ⟨?_, List.forall_mem_cons.mpr
      ⟨?_, List.forall_mem_cons.mpr ⟨?_, ?_⟩⟩⟩
    · exact rest.run_link inData portData low toData (by rintro ⟨⟩) rfl rfl
    · exact rest.run_link inValid portValid Int.one_pos toValid (by rintro ⟨⟩) rfl rfl
    · exact rest.run_link portReady inReady Int.one_pos toReady (by rintro ⟨⟩) rfl rfl
    · exact fun _ h => absurd h List.not_mem_nil
  have outOf : ∀ l ∈ ((placed net width).out.sourceBlock.fieldLinks (Value.indexed "outs" i)
      (Path.join (Value.indexed "stages" i) "out")).steps, l.run e σ = some σ := by
    refine List.forall_mem_cons.mpr ⟨?_, List.forall_mem_cons.mpr
      ⟨?_, List.forall_mem_cons.mpr ⟨?_, ?_⟩⟩⟩
    · exact rest.run_link outData stageData low fromData (by rintro ⟨⟩) rfl rfl
    · exact rest.run_link outValid stageValid Int.one_pos fromValid (by rintro ⟨⟩) rfl rfl
    · exact rest.run_link stageReady outReady Int.one_pos fromReady (by rintro ⟨⟩) rfl rfl
    · exact fun _ h => absurd h List.not_mem_nil
  refine List.forall_mem_cons.mpr ⟨rfl, List.forall_mem_cons.mpr
    ⟨?_, List.forall_mem_cons.mpr ⟨?_, ?_⟩⟩⟩
  · exact Stmt.run_links_eq_self into
  · exact Stmt.run_links_eq_self outOf
  · exact fun _ h => absurd h List.not_mem_nil

end PortSet

namespace Fanout

variable (net count : Nat) (width : Int)

theorem namedAtoms_placed :
    (placed net count width).block.namedAtoms =
      (List.range count).flatMap (fun i =>
        ((Stream.placedSink (net + 12 * i) width).names (Value.indexed "ports" i)).map
          fun row => (row.1, .signal row.2))
      ++ (List.range count).flatMap (fun i =>
        ((Stream.placedSource (net + 12 * i + 3) width).names (Value.indexed "outs" i)).map
          fun row => (row.1, .signal row.2))
      ++ (List.range count).flatMap (fun i =>
        let x := Increment.placed (net + 12 * i + 6) width
        (x.input.names (Path.join (Value.indexed "stages" i) "in")
          ++ x.output.names (Path.join (Value.indexed "stages" i) "out")).map
            fun row => (row.1, .signal row.2)) := by
  rw [block_placed, Block.namedAtoms, fieldItems_fields, List.flatMap_append, List.flatMap_append,
    List.flatMap_assoc, List.flatMap_assoc, List.flatMap_assoc]
  refine congrArg₂ _ (congrArg₂ _ ?_ ?_) ?_ <;> apply List.flatMap_congr <;> intro i _
  · change [(Path.flat [_, "data"], _), (Path.flat [_, "valid"], _), (Path.flat [_, "ready"], _)] = _
    simp [Stream.names, Path.flat_cons, PortSet.join_indexed]
  · change [(Path.flat [_, "data"], _), (Path.flat [_, "valid"], _), (Path.flat [_, "ready"], _)] = _
    simp [Stream.names, Path.flat_cons, PortSet.join_indexed]
  · change [(Path.flat [_] ++ "$" ++ Path.flat ["in", "data"], _),
      (Path.flat [_] ++ "$" ++ Path.flat ["in", "valid"], _),
      (Path.flat [_] ++ "$" ++ Path.flat ["in", "ready"], _),
      (Path.flat [_] ++ "$" ++ Path.flat ["out", "data"], _),
      (Path.flat [_] ++ "$" ++ Path.flat ["out", "valid"], _),
      (Path.flat [_] ++ "$" ++ Path.flat ["out", "ready"], _)] = _
    simp only [Stream.names, PortSet.join_indexed, PortSet.join_joined]
    simp [Path.flat_cons, String.append_assoc]

theorem mem_namedAtoms {i : Nat} (hi : i < count) {row : String × Signal}
    (h : row ∈ (PortSet.placed (net + 12 * i) width).names i) :
    (row.1, .signal row.2) ∈ (placed net count width).block.namedAtoms := by
  rw [namedAtoms_placed]
  simp only [List.mem_append, List.mem_flatMap, List.mem_range]
  rcases List.mem_append.mp h with h | h
  · rcases List.mem_append.mp h with h | h
    · exact .inl (.inl ⟨i, hi, List.mem_map.mpr ⟨row, h, rfl⟩⟩)
    · exact .inl (.inr ⟨i, hi, List.mem_map.mpr ⟨row, h, rfl⟩⟩)
  · exact .inr ⟨i, hi, List.mem_map.mpr ⟨row, h, rfl⟩⟩

variable {net count width} in
theorem runAll_body (low : 0 < width)
    (names : ∀ i < count, ∀ row ∈ (PortSet.placed (net + 12 * i) width).names i,
      Denotes e σ st row.1 row.2)
    (rest : (placed net count width).block.AtRest st) :
    Stmt.runAll e σ (placed net count width).body = some σ := by
  apply Stmt.runAll_eq_self
  rw [body_placed]
  intro s hs
  obtain ⟨i, hi, hs⟩ := List.mem_flatMap.mp hs
  have drives : ∀ d ∈ PortSet.drives (net + 12 * i) width,
      d ∈ (placed net count width).block.updateAll.steps := by
    intro d hd
    rw [updateAll_placed]
    exact List.mem_append_left _ (List.mem_flatMap.mpr ⟨i, hi, hd⟩)
  exact PortSet.run_body rfl low rest drives i (names i (List.mem_range.mp hi)) s hs

theorem faithful (low : 0 < width) (high : width ≤ 64) (st : State) :
    (placed net count width).block.Faithful st := by
  have updates : (placed net count width).block.updateAll.fault = none := by
    rw [updateAll_placed]
    rfl
  have named : Block.fieldsWellNamed (fields net count width) = true := by
    have whole := wellNamed_placed net count width
    rwa [block_placed, Block.wellNamed] at whole
  have atoms {i : Nat} (hi : i < count) := @mem_namedAtoms net count width i hi
  rw [block_placed] at updates atoms ⊢
  apply Block.faithful_of_fields rfl updates
  · rintro rest body ⟨⟩ top
    rw [← block_placed] at rest
    apply runAll_body low _ rest
    intro i hi row mem
    exact Scope.denotes named top st (atoms hi mem)
  · apply forall_mem_fields
    · exact fun _ _ => Block.faithful_of_scopes_eq_nil rfl
    · exact fun _ _ => Block.faithful_of_scopes_eq_nil rfl
    · exact fun i _ => Increment.faithful _ low high st

end Fanout

end Designs

theorem Block.Synchronous.atRest {b : Block} (hb : b.Synchronous) {st : State}
    (quiet : (b.step st).2 = .ok 0) : b.AtRest st :=
  fun _ hd _ hx => hb.assigned_of_quiet quiet hd hx

namespace Part

def Fits : Part → Prop
  | adder w => 1 ≤ w ∧ w ≤ 63
  | flipFlop w | counter w | increment w | blinky w => 1 ≤ w ∧ w ≤ 64
  | fanout n w => 0 ≤ n ∧ 1 ≤ w ∧ w ≤ 64
  | blinker | clockGenerator | diffInput => True

theorem Fits.valid {p : Part} (h : p.Fits) : p.Valid := by
  cases p with
  | adder w => exact ⟨h.1, Int.lt_of_le_of_lt h.2 (by decide)⟩
  | flipFlop w | counter w | increment w | blinky w => exact h.1
  | fanout n w => exact ⟨h.1, h.2.1⟩
  | blinker | clockGenerator | diffInput => trivial

theorem faithful {p : Part} (h : p.Fits) (net cell : Nat) (st : State) :
    (p.placed net cell).Faithful st := by
  cases p with
  | adder w => exact Adder.faithful net h.1 (Int.lt_of_le_of_lt h.2 (by decide)) st
  | flipFlop w => exact FlipFlop.faithful net cell w st
  | counter w => exact Counter.faithful net cell h.1 h.2 st
  | increment w => exact Increment.faithful net h.1 h.2 st
  | blinker => exact Blinker.faithful net cell st
  | blinky w => exact Blinky.faithful net cell h.1 h.2 st
  | fanout n w => exact Fanout.faithful net n.toNat w h.2.1 h.2.2 st
  | clockGenerator => exact ClockGenerator.faithful net st
  | diffInput => exact DiffInput.faithful net st

/-- The code of a part and its simulation agree at rest: in any state in which a step changes nothing,
reached or not, running the code of a module from the values of the simulation is possible and leaves
them as they are. -/
theorem code_agrees (p : Part) (h : p.Fits) (supply : Supply) (top : String) (htop : top ≠ "") :
    ∃ b supply' t, p.build supply = .ok (b, supply') ∧ b.table top = .ok t ∧
      ∀ st, (b.step st).2 = .ok 0 → ∀ s ∈ b.scopes, ∀ body, s.code = .combinatorial body →
        ∃ e, t.get? (s.key top) = some e ∧ e.code = .combinatorial body ∧
          Stmt.runAll e (s.valuation st) body = some (s.valuation st) := by
  obtain ⟨supply', built⟩ := build_eq h.valid supply
  have closed := p.closed supply.nets supply.cells
  obtain ⟨t, table, -⟩ := closed.exists_render htop
  refine ⟨_, supply', t, built, table, ?_⟩
  intro st quiet s hs body code
  have rest := (p.synchronous supply.nets supply.cells).atRest quiet
  refine ⟨s.entry top, Block.get?_scope_key closed.scope closed.named htop table hs, ?_, ?_⟩
  · rw [Scope.code_entry, code]
  · exact p.faithful h supply.nets supply.cells st rest s hs body code top

def ticked : State :=
  (({} : State).setNext (Blinker.placed 0 0).tick 1).setNext (Blinker.placed 0 0).clock 1

theorem code_agrees_blinker :
    blinker.Fits ∧ "t" ≠ "" ∧
      ∃ b supply' t, blinker.build {} = .ok (b, supply') ∧ b.table "t" = .ok t ∧
        ∃ st, b.settle 0 ticked = (st, none) ∧ (b.step st).2 = .ok 0 ∧
          ∃ s ∈ b.scopes, ∃ body, s.code = .combinatorial body ∧
            ["tick", "state", "led", "ff$d"].map (s.valuation st) = [some 1, some 1, some 1, some 0] ∧
            ∃ e, t.get? (s.key "t") = some e ∧ e.code = .combinatorial body ∧
              Stmt.runAll e (s.valuation st) body = some (s.valuation st) := by
  obtain ⟨b, supply', t, built, table, agrees⟩ := code_agrees blinker trivial {} "t" (by decide)
  obtain ⟨rfl, -⟩ : blinker.placed 0 0 = b ∧ _ = supply' := Prod.mk.inj (Except.ok.inj built)
  have quiet : ((blinker.placed 0 0).step ((blinker.placed 0 0).settle 0 ticked).1).2 = .ok 0 := by rfl
  obtain ⟨e, found, code, runs⟩ := agrees _ quiet _ (.head _) _ rfl
  exact ⟨trivial, by decide, _, supply', t, built, table, _, Prod.ext rfl (by rfl), quiet, _, .head _, _,
    rfl, by decide +kernel, e, found, code, runs⟩

end Part

end Circuitry
