import Circuitry.Simulation.State

namespace Circuitry

inductive Word (ν : Type) where
  | var (n : ν)
  | lit (v : UInt64)
  | compl (x : Word ν)
  | add (x y : Word ν)
  | sub (x y : Word ν)
  | and (x y : Word ν)
  | or (x y : Word ν)
  | xor (x y : Word ν)
  | eq (x y : Word ν)
  | ite (test yes no : Word ν)

namespace Word

variable {ν μ : Type}

instance : Inhabited (Word ν) := ⟨.lit 0⟩

def eval (val : ν → UInt64) : Word ν → UInt64
  | .var n => val n
  | .lit v => v
  | .compl x => ~~~ x.eval val
  | .add x y => x.eval val + y.eval val
  | .sub x y => x.eval val - y.eval val
  | .and x y => x.eval val &&& y.eval val
  | .or x y => x.eval val ||| y.eval val
  | .xor x y => x.eval val ^^^ y.eval val
  | .eq x y => if x.eval val = y.eval val then 1 else 0
  | .ite test yes no => if test.eval val = 0 then no.eval val else yes.eval val

def reads : Word ν → List ν
  | .var n => [n]
  | .lit _ => []
  | .compl x => x.reads
  | .add x y | .sub x y | .and x y | .or x y | .xor x y | .eq x y => x.reads ++ y.reads
  | .ite test yes no => test.reads ++ yes.reads ++ no.reads

def subst (f : ν → Except Fault (Word μ)) : Word ν → Except Fault (Word μ)
  | .var n => f n
  | .lit v => pure (.lit v)
  | .compl x => return .compl (← x.subst f)
  | .add x y => return .add (← x.subst f) (← y.subst f)
  | .sub x y => return .sub (← x.subst f) (← y.subst f)
  | .and x y => return .and (← x.subst f) (← y.subst f)
  | .or x y => return .or (← x.subst f) (← y.subst f)
  | .xor x y => return .xor (← x.subst f) (← y.subst f)
  | .eq x y => return .eq (← x.subst f) (← y.subst f)
  | .ite test yes no => return .ite (← test.subst f) (← yes.subst f) (← no.subst f)

theorem eval_congr {val val' : ν → UInt64} :
    ∀ x : Word ν, (∀ n ∈ x.reads, val n = val' n) → x.eval val = x.eval val'
  | .var n, h => h n (by simp [reads])
  | .lit _, _ => rfl
  | .compl x, h => by rw [eval, eval, eval_congr x h]
  | .add x y, h | .sub x y, h | .and x y, h | .or x y, h | .xor x y, h | .eq x y, h => by
    simp only [reads, List.mem_append] at h
    rw [eval, eval, eval_congr x fun n hn => h n (.inl hn), eval_congr y fun n hn => h n (.inr hn)]
  | .ite test yes no, h => by
    simp only [reads, List.mem_append] at h
    rw [eval, eval, eval_congr test fun n hn => h n (.inl (.inl hn)),
      eval_congr yes fun n hn => h n (.inl (.inr hn)), eval_congr no fun n hn => h n (.inr hn)]

end Word

/-- One action of an update. A conditional put leaves the next value alone where its test is zero. A
latch copies `d` to `q` when `clock` rises, and remembers the clock level in its own cell. -/
inductive Drive where
  | put (target : Signal) (x : Word Nat)
  | putIf (test : Word Nat) (target : Signal) (x : Word Nat)
  | flag (target : Signal) (x : Word Nat)
  | latch (cell : Nat) (clock d q : Signal)

namespace Drive

def run (st : State) : Drive → State
  | .put t x => st.setNext t (x.eval st.val.get)
  | .putIf test t x => if test.eval st.val.get = 0 then st else st.setNext t (x.eval st.val.get)
  | .flag t x => st.setFlag t (x.eval st.val.get != 0)
  | .latch cell clock d q =>
    let level := st.val.get clock.net != 0
    let st' := if level && !st.clock.get cell then st.setNext q (st.val.get d.net) else st
    { st' with clock := st'.clock.set cell level }

def target : Drive → Signal
  | .put t _ | .putIf _ t _ | .flag t _ | .latch _ _ _ t => t

@[simp] theorem val_run (st : State) (d : Drive) : (d.run st).val = st.val := by
  cases d with
  | put => rfl
  | putIf => simp only [run]; split <;> rfl
  | flag => rfl
  | latch cell clock d q => simp only [run]; split <;> rfl

@[simp] theorem marked_run (st : State) (d : Drive) : (d.run st).marked = st.marked := by
  cases d with
  | put => rfl
  | putIf => simp only [run]; split <;> rfl
  | flag => rfl
  | latch cell clock d q => simp only [run]; split <;> rfl

end Drive

end Circuitry
