namespace Statechart

variable {ε σ τ : Type}

def advance (step : σ → τ → Except ε σ) (s : σ) : List τ → σ
  | [] => s
  | t :: ts =>
    match step s t with
    | .error _ => s
    | .ok s => advance step s ts

end Statechart
