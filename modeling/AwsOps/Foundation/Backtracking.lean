import AwsOps.Foundation.Substitute

/-!
# Regular expressions with backtracking

The ends of the matches of an expression at a place of a text, in the order in which a backtracking
engine tries them: the first end is that of the match that it finds.
-/

namespace AwsOps.Backtracking

/-- A place of a text: the character before it and what is behind. -/
abbrev Place := Option Char × List Char

inductive Regex
  | one (member : Char → Bool)
  | look (test : Option Char → List Char → Bool)
  | seq (first second : Regex)
  | alt (first second : Regex)
  | loop (least : Nat) (more : Option Nat) (body : Regex)

/-- At most `more` rounds, as many as possible first. -/
def upTo (body : Place → List Place) : Nat → Place → List Place
  | 0, place => [place]
  | more + 1, place => (body place).flatMap (upTo body more) ++ [place]

/-- At least `least` rounds and at most `more` besides. -/
def rounds (body : Place → List Place) (more : Nat) : Nat → Place → List Place
  | 0, place => upTo body more place
  | least + 1, place => (body place).flatMap (rounds body more least)

/-- The ends of the matches. A loop without a bound takes no more rounds than there are characters. -/
def Regex.ends : Regex → Place → List Place
  | .one member, (_, c :: rest) => if member c then [(some c, rest)] else []
  | .one _, (_, []) => []
  | .look test, place => if test place.1 place.2 then [place] else []
  | .seq first second, place => (first.ends place).flatMap second.ends
  | .alt first second, place => first.ends place ++ second.ends place
  | .loop least more body, place => rounds body.ends (more.getD place.2.length) least place

/-- The length of the match at a place. -/
def Regex.length (r : Regex) (before : Option Char) (text : List Char) : Option Nat :=
  (r.ends (before, text)).head?.map fun place => text.length - place.2.length

namespace Regex

/-- The expressions one after the other. -/
def all : List Regex → Regex
  | [] => .look fun _ _ => true
  | [r] => r
  | r :: more => .seq r (all more)

/-- The first of the expressions that fits. -/
def any : List Regex → Regex
  | [] => .look fun _ _ => false
  | [r] => r
  | r :: more => .alt r (any more)

def char (c : Char) : Regex :=
  .one (· == c)

def word (s : String) : Regex :=
  all (s.toList.map char)

/-- `r{least,most}` -/
def between (least most : Nat) (r : Regex) : Regex :=
  .loop least (some (most - least)) r

/-- `r+` -/
def plus (r : Regex) : Regex :=
  .loop 1 none r

end Regex

end AwsOps.Backtracking
