import InfoFlow.Distribution.Family
import InfoFlow.Special.ErrorFunction

namespace InfoFlow

/-- A violated constraint on a parameter. -/
structure ParameterFault where
  parameter : String
  reason : String
  deriving Repr, DecidableEq

/-- The domain of a distribution: the numbers, or the whole numbers, between two ends. -/
structure Support (α : Type) where
  lower : α
  upper : α
  isDiscrete : Bool

namespace Support

variable {α : Type} [Scalar α]

/-- The widest domain that a family has, whatever its parameters. -/
def ofFamily (f : Family) : Support α :=
  let (lower, upper) : α × α := match f with
    | .bernoulli | .beta => (0, 1)
    | .betaBinomial | .binomial | .poisson | .categorical => (0, Scalar.infinity)
    | .exponential | .gamma => (0, Scalar.infinity)
    | .geometric => (1, Scalar.infinity)
    | .cauchy | .discreteUniform | .laplace | .normal | .studentT | .truncatedNormal | .uniform
    | .constant => (-Scalar.infinity, Scalar.infinity)
  ⟨lower, upper, f.isDiscrete⟩

def contains (s : Support α) (x : α) : Bool :=
  s.lower ≤ x && x ≤ s.upper && (!s.isDiscrete || Scalar.isInteger x)

end Support

/-- A distribution with concrete parameters. Trial counts and integer bounds are machine words, the
weights of a categorical distribution are normalized. -/
inductive Distribution (α : Type) where
  | bernoulli (p : α)
  | beta (a b : α)
  | betaBinomial (n : UInt64) (a b : α)
  | binomial (n : UInt64) (p : α)
  | cauchy (location scale : α)
  | discreteUniform (lower upper : Int64)
  | exponential (rate : α)
  | gamma (shape rate : α)
  | geometric (p : α)
  | laplace (location scale : α)
  | normal (mean deviation : α)
  | poisson (mean : α)
  | studentT (freedom location scale : α)
  | truncatedNormal (mean deviation lower upper : α)
  | uniform (lower upper : α)
  | categorical (weights : Array α)
  | constant (value : α)

variable {α : Type} [Scalar α]

/-- Checks what a single literal must satisfy, whatever the other parameters are. -/
def checkLiteral (f : Family) (parameter : String) (x : α) : Except ParameterFault Unit :=
  let fault (reason : String) : Except ParameterFault Unit := .error ⟨parameter, reason⟩
  let positive : Except ParameterFault Unit :=
    if x ≤ 0 then fault "must be positive" else pure ()
  if !Scalar.isFinite x then fault "must be finite"
  else match f, parameter with
    | .bernoulli, "p" | .binomial, "p" =>
      if !(0 ≤ x && x ≤ 1) then fault "must be in [0, 1]" else pure ()
    | .geometric, "p" => if !(0 < x && x ≤ 1) then fault "must be in (0, 1]" else pure ()
    | .binomial, "n" | .betaBinomial, "n" =>
      if x < 1 || !Scalar.isInteger x then fault "must be a positive integer" else pure ()
    | .discreteUniform, _ =>
      if !Scalar.isInteger x then fault "must be an integer" else pure ()
    | .beta, _ | .betaBinomial, "alpha" | .betaBinomial, "beta" | .cauchy, "beta"
    | .exponential, _ | .gamma, _ | .laplace, "b" | .normal, "std" | .poisson, _
    | .studentT, "nu" | .studentT, "sigma" | .truncatedNormal, "sigma" => positive
    | _, _ => pure ()

namespace Distribution

/-- The mass that a normal distribution puts between two bounds. -/
def normalMass (mean deviation lower upper : α) : α :=
  Special.normalCdf ((upper - mean) / deviation) - Special.normalCdf ((lower - mean) / deviation)

/-- Normalizes the weights of a categorical distribution. -/
def ofWeights (weights : Option (List α)) : Except ParameterFault (Distribution α) :=
  match weights with
  | none => .error ⟨"p", "missing probabilities"⟩
  | some ws =>
    if ws.isEmpty then .error ⟨"p", "must not be empty"⟩
    else if ws.any fun w => !Scalar.isFinite w || w < 0 then
      .error ⟨"p", "weights must be finite and non-negative"⟩
    else
      let total := Scalar.sum ws
      if total ≤ 0 then .error ⟨"p", "weights must have a positive sum"⟩
      else .ok (.categorical (ws.map (· / total)).toArray)

/-- The constraints that tie several parameters together. -/
def ofChecked (f : Family) (values : List α) (weights : Option (List α)) :
    Except ParameterFault (Distribution α) :=
  match f, values with
  | .bernoulli, [p] => .ok (.bernoulli p)
  | .beta, [a, b] => .ok (.beta a b)
  | .betaBinomial, [n, a, b] => .ok (.betaBinomial (Scalar.toUInt64 n) a b)
  | .binomial, [n, p] => .ok (.binomial (Scalar.toUInt64 n) p)
  | .cauchy, [location, scale] => .ok (.cauchy location scale)
  | .discreteUniform, [lower, upper] =>
    if upper < lower then .error ⟨"upper", "must not be smaller than lower"⟩
    else .ok (.discreteUniform (Scalar.toInt64 lower) (Scalar.toInt64 upper))
  | .exponential, [rate] => .ok (.exponential rate)
  | .gamma, [shape, rate] => .ok (.gamma shape rate)
  | .geometric, [p] => .ok (.geometric p)
  | .laplace, [location, scale] => .ok (.laplace location scale)
  | .normal, [mean, deviation] => .ok (.normal mean deviation)
  | .poisson, [mean] => .ok (.poisson mean)
  | .studentT, [freedom, location, scale] => .ok (.studentT freedom location scale)
  | .truncatedNormal, [mean, deviation, lower, upper] =>
    if upper ≤ lower then .error ⟨"upper", "must be greater than lower"⟩
    else
      let mass := normalMass mean deviation lower upper
      if mass ≤ 0 || !Scalar.isFinite mass then
        .error ⟨"lower", "bounds carry no probability mass"⟩
      else .ok (.truncatedNormal mean deviation lower upper)
  | .uniform, [lower, upper] =>
    if upper ≤ lower then .error ⟨"upper", "must be greater than lower"⟩
    else .ok (.uniform lower upper)
  | .categorical, _ => ofWeights weights
  | .constant, [value] => .ok (.constant value)
  | _, _ => .error ⟨"*", "wrong number of parameters"⟩

/-- The distribution of a family with the given parameter values, in signature order. The weights
are those of a categorical distribution, which has one placeholder value. -/
def build (f : Family) (values : List α) (weights : Option (List α)) :
    Except ParameterFault (Distribution α) := do
  if values.length ≠ f.signature.length then
    throw ⟨"*", "wrong number of parameters"⟩
  if f ≠ .categorical then
    (f.signature.zip values).forM fun (parameter, x) => checkLiteral f parameter x
  ofChecked f values weights

def family : Distribution α → Family
  | .bernoulli .. => .bernoulli
  | .beta .. => .beta
  | .betaBinomial .. => .betaBinomial
  | .binomial .. => .binomial
  | .cauchy .. => .cauchy
  | .discreteUniform .. => .discreteUniform
  | .exponential .. => .exponential
  | .gamma .. => .gamma
  | .geometric .. => .geometric
  | .laplace .. => .laplace
  | .normal .. => .normal
  | .poisson .. => .poisson
  | .studentT .. => .studentT
  | .truncatedNormal .. => .truncatedNormal
  | .uniform .. => .uniform
  | .categorical .. => .categorical
  | .constant .. => .constant

def isDiscrete (d : Distribution α) : Bool := d.family.isDiscrete

/-- Parameter values, in signature order; a categorical distribution has none. -/
def parameterValues : Distribution α → List α
  | .bernoulli p | .geometric p => [p]
  | .beta a b => [a, b]
  | .betaBinomial n a b => [Scalar.ofUInt64 n, a, b]
  | .binomial n p => [Scalar.ofUInt64 n, p]
  | .cauchy location scale => [location, scale]
  | .discreteUniform lower upper => [Scalar.ofInt64 lower, Scalar.ofInt64 upper]
  | .exponential rate => [rate]
  | .gamma shape rate => [shape, rate]
  | .laplace location scale => [location, scale]
  | .normal mean deviation => [mean, deviation]
  | .poisson mean => [mean]
  | .studentT freedom location scale => [freedom, location, scale]
  | .truncatedNormal mean deviation lower upper => [mean, deviation, lower, upper]
  | .uniform lower upper => [lower, upper]
  | .categorical _ => []
  | .constant value => [value]

def support (d : Distribution α) : Support α :=
  let wide : Support α := Support.ofFamily d.family
  let narrow (lower upper : α) : Support α := { wide with lower, upper }
  match d with
  | .betaBinomial n _ _ | .binomial n _ => narrow 0 (Scalar.ofUInt64 n)
  | .discreteUniform lower upper => narrow (Scalar.ofInt64 lower) (Scalar.ofInt64 upper)
  | .truncatedNormal _ _ lower upper | .uniform lower upper => narrow lower upper
  | .categorical weights => narrow 0 (Scalar.ofNat (weights.size - 1))
  | .constant value => narrow value value
  | _ => wide

end Distribution

end InfoFlow
