import Mathlib.Data.List.TakeWhile
import Mathlib.Tactic.Common

/-! The parts of a URL, by the generic syntax of RFC 3986: a scheme, and an authority that is user
info, host and port. -/

namespace Url

/-- A character of a scheme behind its first letter. -/
def isSchemeChar (c : Char) : Bool := c.isAlphanum || c = '+' || c = '-' || c = '.'

def endsAuthority (c : Char) : Bool := c = '/' || c = '?' || c = '#'

def scheme (url : List Char) : List Char := url.takeWhile isSchemeChar

/-- What stands between `scheme://` and the path, the query or the fragment. -/
def authority (url : List Char) : Option (List Char) :=
  match scheme url, url.dropWhile isSchemeChar with
  | c :: _, ':' :: '/' :: '/' :: rest =>
    if c.isAlpha then some (rest.takeWhile fun c => !endsAuthority c) else none
  | _, _ => none

/-- An authority without the user info. -/
def hostPort (authority : List Char) : List Char :=
  (authority.reverse.takeWhile (· ≠ '@')).reverse

/-- An address in brackets, or all up to the port. -/
def hostOf : List Char → List Char
  | '[' :: cs => '[' :: cs.takeWhile (· ≠ ']') ++ [']']
  | cs => cs.takeWhile (· ≠ ':')

def host (url : List Char) : Option (List Char) := (authority url).map fun a => hostOf (hostPort a)

def quad (a b c d : List Char) : List Char := a ++ '.' :: (b ++ '.' :: (c ++ '.' :: d))

/-- Four bytes in decimal, without zeros in front. -/
def IsIpv4 (text : List Char) : Prop := ∃ a b c d : Fin 256,
  text = quad (Nat.toDigits 10 a) (Nat.toDigits 10 b) (Nat.toDigits 10 c) (Nat.toDigits 10 d)

theorem length_toDigits_byte (n : Fin 256) : (Nat.toDigits 10 n).length ≤ 3 :=
  (Nat.length_toDigits_le_iff (by decide) (by decide)).2 (n.isLt.trans (by decide))

theorem isDigit_toDigits {n : Nat} {c : Char} (h : c ∈ Nat.toDigits 10 n) : c.isDigit = true :=
  Nat.isDigit_of_mem_toDigits (by decide) (by decide) h

theorem IsIpv4.all {text : List Char} (h : IsIpv4 text) :
    ∀ c ∈ text, c.isDigit = true ∨ c = '.' := by
  obtain ⟨i, j, k, l, rfl⟩ := h
  intro c hc
  simp only [quad, List.mem_append, List.mem_cons] at hc
  rcases hc with hc | hc | hc | hc | hc | hc | hc
  · exact .inl (isDigit_toDigits hc)
  · exact .inr hc
  · exact .inl (isDigit_toDigits hc)
  · exact .inr hc
  · exact .inl (isDigit_toDigits hc)
  · exact .inr hc
  · exact .inl (isDigit_toDigits hc)

variable {url : List Char}

theorem authority_eq {a : List Char} (h : authority url = some a) :
    ∃ rest, url = scheme url ++ ':' :: '/' :: '/' :: rest ∧
      a = rest.takeWhile fun c => !endsAuthority c := by
  have hurl : url = scheme url ++ url.dropWhile isSchemeChar := List.takeWhile_append_dropWhile.symm
  unfold authority at h
  split at h
  · rename_i rest _ hrest
    split at h
    · cases h
      exact ⟨rest, hrest ▸ hurl, rfl⟩
    · cases h
  · cases h

theorem hostPort_of_not_mem {a : List Char} (h : '@' ∉ a) : hostPort a = a := by
  unfold hostPort
  rw [List.takeWhile_eq_self_iff.2, List.reverse_reverse]
  intro c hc
  have hne : c ≠ '@' := by
    rintro rfl
    exact h (List.mem_reverse.1 hc)
  exact decide_eq_true hne

theorem host_eq {ip : List Char} (h : host url = some ip)
    (huser : ∀ a, authority url = some a → '@' ∉ a)
    (hip : ∀ cs, ip ≠ '[' :: cs) : ∃ rest, url = scheme url ++ ':' :: '/' :: '/' :: (ip ++ rest) ∧
      ∀ c ∈ rest.head?, c = ':' ∨ endsAuthority c = true := by
  obtain ⟨a, ha, hhost⟩ := Option.map_eq_some_iff.1 h
  obtain ⟨rest, hurl, haRest⟩ := authority_eq ha
  have hplain : hostOf a = a.takeWhile (· ≠ ':') := by
    rw [hostPort_of_not_mem (huser a ha)] at hhost
    unfold hostOf at hhost ⊢
    split
    · exact absurd hhost.symm (hip _)
    · rfl
  rw [hostPort_of_not_mem (huser a ha), hplain] at hhost
  refine ⟨a.dropWhile (· ≠ ':') ++ rest.dropWhile fun c => !endsAuthority c, ?_, fun c hc => ?_⟩
  · rw [← hhost, ← List.append_assoc, List.takeWhile_append_dropWhile, haRest,
      List.takeWhile_append_dropWhile]
    exact hurl
  · rw [List.head?_append] at hc
    have hport := List.head?_dropWhile_not (· ≠ ':') a
    have hpath := List.head?_dropWhile_not (fun c => !endsAuthority c) rest
    cases hd : (a.dropWhile (· ≠ ':')).head? with
    | none =>
      rw [hd, Option.none_or] at hc
      rw [Option.mem_def.1 hc] at hpath
      exact .inr (by simpa using hpath)
    | some x =>
      rw [hd] at hc hport
      cases hc
      exact .inl (by simpa using hport)

end Url
