namespace InfoFlow

/-- A distribution family. -/
inductive Family where
  | bernoulli
  | beta
  | betaBinomial
  | binomial
  | cauchy
  | discreteUniform
  | exponential
  | gamma
  | geometric
  | laplace
  | normal
  | poisson
  | studentT
  | truncatedNormal
  | uniform
  | categorical
  | constant
  deriving Repr, DecidableEq

namespace Family

/-- All families, in the order of the catalog. -/
def all : List Family :=
  [bernoulli, beta, betaBinomial, binomial, cauchy, discreteUniform, exponential, gamma, geometric,
   laplace, normal, poisson, studentT, truncatedNormal, uniform, categorical, constant]

def name : Family → String
  | bernoulli => "Bernoulli"
  | beta => "Beta"
  | betaBinomial => "BetaBinomial"
  | binomial => "Binomial"
  | cauchy => "Cauchy"
  | discreteUniform => "DiscreteUniform"
  | exponential => "Exponential"
  | gamma => "Gamma"
  | geometric => "Geometric"
  | laplace => "Laplace"
  | normal => "Normal"
  | poisson => "Poisson"
  | studentT => "StudentT"
  | truncatedNormal => "TruncatedNormal"
  | uniform => "Uniform"
  | categorical => "Categorical"
  | constant => "Constant"

def ofName? (s : String) : Option Family := all.find? (·.name == s)

/-- Parameter names, in declaration order. -/
def signature : Family → List String
  | bernoulli => ["p"]
  | beta => ["alpha", "beta"]
  | betaBinomial => ["n", "alpha", "beta"]
  | binomial => ["n", "p"]
  | cauchy => ["alpha", "beta"]
  | discreteUniform => ["lower", "upper"]
  | exponential => ["lam"]
  | gamma => ["alpha", "beta"]
  | geometric => ["p"]
  | laplace => ["mu", "b"]
  | normal => ["mu", "std"]
  | poisson => ["mu"]
  | studentT => ["nu", "mu", "sigma"]
  | truncatedNormal => ["mu", "sigma", "lower", "upper"]
  | uniform => ["lower", "upper"]
  | categorical => ["p"]
  | constant => ["val"]

/-- Whether the values of the family are whole numbers. A constant counts as one of them. -/
def isDiscrete : Family → Bool
  | bernoulli | betaBinomial | binomial | discreteUniform | geometric | poisson | categorical
  | constant => true
  | beta | cauchy | exponential | gamma | laplace | normal | studentT | truncatedNormal
  | uniform => false

end Family

end InfoFlow
