import LogSubmitter.Lib.Dict
import LogSubmitter.Lib.Replace
/-!
# The environment in a minidump

`sanitize_environ` takes the home directory and the name of the user out of the values.
The name is usually in the directory, so the directory goes first.
-/
namespace LogSubmitter.Minidump

open Lib Replace

/-! ## `sanitize_environ` -/

/-- `value.replace(old, new)` -/
def replaceText (old new value : String) : String :=
  String.ofList (replace old.toList new.toList value.toList)

/-- A variable is deleted, and its text replaced in all values, unless it is empty. -/
def hide (key text new : String) (env : Dict String String) : Dict String String :=
  if text = "" then env else (env.erase key).mapValues (replaceText text new)

/-- `MinidumpHelper.sanitize_environ` -/
def sanitizeEnviron (env : Dict String String) : Dict String String :=
  let env := env.erase "SteamAppUser"
  let home := env.get? "HOME"
  let user := env.get? "USER"
  let env := home.elim env fun home => hide "HOME" home "${HOME}" env
  user.elim env fun user => hide "USER" user "${USER}" env

/-! ## What is in the values -/

def hidden : List String := ["USER", "HOME", "SteamAppUser"]

/-- A text that is not empty and has nothing in common with the placeholders. -/
structure Plain (text : String) : Prop where
  ne_empty : text ≠ ""
  home : ∀ c ∈ text.toList, c ∉ "${HOME}".toList
  user : ∀ c ∈ text.toList, c ∉ "${USER}".toList

theorem plain_of_all {text : String} (hne : text ≠ "")
    (hall : text.toList.all (fun c => !("${HOME}".toList ++ "${USER}".toList).contains c) = true) : Plain text := by
  simp only [List.all_eq_true, Bool.not_eq_true', List.contains_eq_mem, decide_eq_false_iff_not, List.mem_append,
    not_or] at hall
  exact ⟨hne, fun c hc => (hall c hc).1, fun c hc => (hall c hc).2⟩

/-- `sub in text` -/
def Contains (sub text : String) : Prop := sub.toList <:+: text.toList

theorem Plain.ne_nil {text : String} (h : Plain text) : text.toList ≠ [] := by
  simpa using h.ne_empty

theorem Plain.apart_home {text : String} (h : Plain text) : Apart text.toList "${HOME}".toList :=
  apart_of_disjoint h.ne_nil (by decide) h.home

theorem Plain.apart_user {text : String} (h : Plain text) : Apart text.toList "${USER}".toList :=
  apart_of_disjoint h.ne_nil (by decide) h.user

/-- The placeholders do not overlap. -/
theorem user_apart_home : Apart "${USER}".toList "${HOME}".toList :=
  apart_of_mark (m := '$') (by decide) (by decide) (by decide) (by decide)

section
variable {home user : String}

/-- Both passes over a value. -/
def clean (home user value : String) : String := replaceText user "${USER}" (replaceText home "${HOME}" value)

theorem not_contains_user (huser : Plain user) (value : String) :
    ¬Contains user (clean home user value) := by
  unfold Contains clean replaceText
  rw [String.toList_ofList]
  exact not_infix_replace huser.ne_nil huser.apart_user _

/-- The second pass brings nothing of the directory back. -/
theorem not_contains_home (hhome : Plain home) (huser : Plain user) (value : String) :
    ¬Contains home (clean home user value) := by
  unfold Contains clean replaceText
  simp only [String.toList_ofList]
  intro h
  have hbefore := infix_of_infix_replace huser.ne_nil hhome.ne_nil hhome.apart_user h
  exact not_infix_replace hhome.ne_nil hhome.apart_home _ hbefore

/-- What has no placeholder comes back. -/
theorem restored (hhome : Plain home) (huser : Plain user) {value : String} (hh : ¬Contains "${HOME}" value)
    (hu : ¬Contains "${USER}" value) :
    replaceText "${HOME}" home (replaceText "${USER}" user (clean home user value)) = value := by
  have hbetween : ¬"${USER}".toList <:+: replace home.toList "${HOME}".toList value.toList := by
    intro h
    exact hu (infix_of_infix_replace hhome.ne_nil (by decide) user_apart_home h)
  unfold clean replaceText
  simp only [String.toList_ofList]
  rw [show replace "${USER}".toList user.toList (replace user.toList "${USER}".toList
      (replace home.toList "${HOME}".toList value.toList)) = replace home.toList "${HOME}".toList value.toList from
      replace_back (m := '$') huser.ne_nil (by decide) hbetween,
    show replace "${HOME}".toList home.toList (replace home.toList "${HOME}".toList value.toList) = value.toList from
      replace_back (m := '$') hhome.ne_nil (by decide) hh, String.ofList_toList]

/-! ## The environment -/

theorem sanitizeEnviron_eq {env : Dict String String} (hh : env.get? "HOME" = some home)
    (hu : env.get? "USER" = some user) (hhome : home ≠ "") (huser : user ≠ "") :
    (sanitizeEnviron env).keys = env.keys.filter (· ∉ hidden) ∧
      ∀ key, key ∉ hidden → (sanitizeEnviron env).get? key = (env.get? key).map (clean home user) := by
  have hh' : (env.erase "SteamAppUser").get? "HOME" = some home := by
    rw [Dict.get?_erase_of_ne _ (by decide), hh]
  have hu' : (env.erase "SteamAppUser").get? "USER" = some user := by
    rw [Dict.get?_erase_of_ne _ (by decide), hu]
  unfold sanitizeEnviron
  simp only [hh', hu', Option.elim_some, hide, hhome, huser, if_false]
  constructor
  · simp only [Dict.keys_mapValues, Dict.keys_erase, List.filter_filter]
    apply List.filter_congr
    intro key _
    simp [hidden]
  · intro key hkey
    simp only [hidden, List.mem_cons, List.not_mem_nil, or_false, not_or] at hkey
    rw [Dict.get?_mapValues, Dict.get?_erase_of_ne _ hkey.1, Dict.get?_mapValues,
      Dict.get?_erase_of_ne _ hkey.2.1, Dict.get?_erase_of_ne _ hkey.2.2, Option.map_map]
    rfl

/-- Neither text is in any value, the other variables are still there, and their values can be had back. -/
theorem sanitizeEnviron_hides {env : Dict String String} (hh : env.get? "HOME" = some home)
    (hu : env.get? "USER" = some user) (hhome : Plain home) (huser : Plain user) :
    (∀ key value, (sanitizeEnviron env).get? key = some value → ¬Contains home value ∧ ¬Contains user value) ∧
      (sanitizeEnviron env).keys = env.keys.filter (· ∉ hidden) ∧
      ∀ key value, key ∉ hidden → env.get? key = some value →
        ∃ cleaned, (sanitizeEnviron env).get? key = some cleaned ∧
          (¬Contains "${HOME}" value → ¬Contains "${USER}" value →
            replaceText "${HOME}" home (replaceText "${USER}" user cleaned) = value) := by
  obtain ⟨hkeys, hvalues⟩ := sanitizeEnviron_eq hh hu hhome.ne_empty huser.ne_empty
  refine ⟨?_, hkeys, ?_⟩
  · intro key value hget
    have hmem : key ∈ (sanitizeEnviron env).keys := by
      by_contra hn
      rw [Dict.get?_eq_none.2 hn] at hget
      cases hget
    rw [hkeys, List.mem_filter] at hmem
    rw [hvalues key (by simpa using hmem.2), Option.map_eq_some_iff] at hget
    obtain ⟨before, -, rfl⟩ := hget
    exact ⟨not_contains_home hhome huser before, not_contains_user huser before⟩
  · intro key value hkey hget
    refine ⟨clean home user value, ?_, restored hhome huser⟩
    rw [hvalues key hkey, hget, Option.map_some]

end

/-- A directory with the name of its user. -/
def gordon : Dict String String where
  items := [("USER", "gordon"), ("SteamAppUser", "mitgrad"), ("HOME", "/home/gordon"),
    ("PWD", "/home/gordon/Downloads"), ("MAIL", "/var/spool/mail/gordon"), ("PAGER", "less")]
  nodup := by decide

theorem gordon_hidden :
    (∀ key value, (sanitizeEnviron gordon).get? key = some value →
        ¬Contains "/home/gordon" value ∧ ¬Contains "gordon" value) ∧
      (sanitizeEnviron gordon).keys = gordon.keys.filter (· ∉ hidden) ∧
      ∀ key value, key ∉ hidden → gordon.get? key = some value →
        ∃ cleaned, (sanitizeEnviron gordon).get? key = some cleaned ∧
          (¬Contains "${HOME}" value → ¬Contains "${USER}" value →
            replaceText "${HOME}" "/home/gordon" (replaceText "${USER}" "gordon" cleaned) = value) :=
  sanitizeEnviron_hides (by decide +kernel) (by decide +kernel) (plain_of_all (by decide) (by decide +kernel))
    (plain_of_all (by decide) (by decide +kernel))

example : (sanitizeEnviron gordon).items =
    [("PWD", "${HOME}/Downloads"), ("MAIL", "/var/spool/mail/${USER}"), ("PAGER", "less")] := by decide +kernel

end LogSubmitter.Minidump
