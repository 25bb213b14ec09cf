import ScriptAudit.Proofs.Rules.Forms

/-! # Rules on changed scripts

Where the searches of a rule find in a changed script what they find in the script, each match
changed in the same way, the rule has its hits changed in the same way. Main statement:
`Change.carries_detect`.
-/
namespace ScriptAudit
open Rules

/-- The patterns whose matches the rules report or count. -/
inductive Pattern.IsSearched : Pattern → Prop where
  | infolistGet : IsSearched infolistGet
  | python2Bin : IsSearched (infoGet "python2_bin")
  | sysExit : IsSearched (literal "sys.exit")
  | formerGetString : IsSearched (literal "hook_completion_get_string")
  | getString : IsSearched (wordStart "completion_get_string")
  | formerListAdd : IsSearched (literal "hook_completion_list_add")
  | listAdd : IsSearched (wordStart "completion_list_add")
  | ircNickColor : IsSearched (infoGet "irc_nick_color")
  | nickColor : IsSearched (infoGet "nick_color")
  | ircNickColorName : IsSearched (infoGet "irc_nick_color_name")
  | nickColorName : IsSearched (infoGet "nick_color_name")
  | modifier : IsSearched modifierPattern
  | signalOut : IsSearched (signalPattern "irc_out_")
  | signalOuttags : IsSearched (signalPattern "irc_outtags_")
  | processUrl : IsSearched processUrlPattern
  | site : IsSearched sitePattern

/-- What holds of the five rules that speak once about the script holds of each of them. -/
@[elab_as_elim]
theorem Rule.speaksOnceCases {motive : RuleName → Detector → Prop} {r : Rule} (hr : r ∈ table)
    (hname : r.name.speaksOnce = true) (email : motive .missingEmail missingEmail)
    (indentation : motive .mixedTabsSpaces mixedTabsSpaces)
    (shebang : motive .unneededShebang unneededShebang)
    (copyright : motive .missingSpdxCopyright missingSpdxCopyright)
    (license : motive .missingSpdxLicense missingSpdxLicense) : motive r.name r.detect := by
  simp only [table, List.mem_cons, List.not_mem_nil, or_false] at hr
  rcases hr with rfl | rfl | rfl | rfl | rfl | rfl | rfl | rfl | rfl | rfl | rfl | rfl | rfl | rfl |
    rfl | rfl | rfl
  all_goals first | assumption | cases hname

/-- A change of scripts, with what becomes of a match and of the hits that are made of it. -/
structure Change where
  source : Source → Source
  found : Match → Match
  hit : Hit → Hit
  hit_at (m : Match) : Hit.at (found m).line = hit (Hit.at m.line)
  hit_message (m : Match) : (⟨(found m).line, .message (messageName (found m))⟩ : Hit) =
    hit ⟨m.line, .message (messageName m)⟩
  hit_link (m : Match) : (⟨(found m).line, .link (found m).text⟩ : Hit) =
    hit ⟨m.line, .link m.text⟩

namespace Change

variable {f : Change} {p old new : Pattern} {maxLines : Nat} {hit : Match → Hit} {r : Rule}

/-- A search finds the same in the changed script, but for the change. -/
def Tracks (f : Change) (p : Pattern) : Prop :=
  ∀ s maxLines, (f.source s).search p maxLines = (s.search p maxLines).map f.found

/-- A rule has the same hits in the changed script, but for the change. -/
def Carries (f : Change) (d : Detector) : Prop :=
  ∀ s, d (f.source s) = List.map f.hit <$> d s

theorem Tracks.map_search (h : f.Tracks p) (hhit : ∀ m, hit (f.found m) = f.hit (hit m))
    (s : Source) (maxLines : Nat) :
    ((f.source s).search p maxLines).map hit = ((s.search p maxLines).map hit).map f.hit := by
  rw [h, List.map_map, List.map_map]
  exact List.map_congr_left fun m _ => hhit m

theorem carries_search (h : f.Tracks p) (hhit : ∀ m, hit (f.found m) = f.hit (hit m)) :
    f.Carries fun s => .ok ((s.search p maxLines).map hit) :=
  fun s => congrArg Except.ok (h.map_search hhit s maxLines)

/-- A rule that is silent on some scripts is so whether they are changed or not. -/
theorem carries_unless {silent : Source → Prop} [DecidablePred silent] (h : f.Tracks p)
    (hsilent : ∀ s, silent (f.source s) ↔ silent s) :
    f.Carries fun s => .ok (if silent s then [] else s.hits p maxLines) := by
  intro s
  refine congrArg Except.ok ?_
  by_cases hs : silent s
  · rw [if_pos hs, if_pos ((hsilent s).mpr hs)]
    rfl
  · rw [if_neg hs, if_neg (mt (hsilent s).mp hs)]
    exact h.map_search f.hit_at s maxLines

/-- The old and the new uses are as many as in the script, and so they agree in number or not. -/
theorem carries_deprecated (hold : f.Tracks old) (hnew : f.Tracks new) :
    f.Carries (deprecated old new maxLines) := by
  refine carries_unless hold fun s => ?_
  rw [hold, hnew, List.length_map, List.length_map]

theorem carries_missingInfolistFree (h : f.Tracks infolistGet)
    (hmentions : ∀ s, (f.source s).mentions "infolist_free" = s.mentions "infolist_free") :
    f.Carries missingInfolistFree := by
  rw [missingInfolistFree_eq]
  exact carries_unless h fun s => by rw [hmentions]

theorem carries_messageHits (h : f.Tracks p) (hp : p.passes 1 = true) :
    f.Carries (messageHits p) := by
  intro s
  rw [messageHits_eq hp, messageHits_eq hp]
  exact carries_search h f.hit_message s

theorem carries_detect (hr : r ∈ Rule.table) (hname : r.name.speaksOnce = false)
    (htracks : ∀ p : Pattern, p.IsSearched → f.Tracks p)
    (hmentions : ∀ s, (f.source s).mentions "infolist_free" = s.mentions "infolist_free") :
    f.Carries r.detect := by
  simp only [Rule.table, List.mem_cons, List.not_mem_nil, or_false] at hr
  rcases hr with rfl | rfl | rfl | rfl | rfl | rfl | rfl | rfl | rfl | rfl | rfl | rfl | rfl | rfl |
    rfl | rfl | rfl
  all_goals dsimp only
  · cases hname
  · exact carries_missingInfolistFree (htracks _ .infolistGet) hmentions
  · exact carries_search (htracks _ .python2Bin) f.hit_at
  · exact carries_search (htracks _ .sysExit) f.hit_at
  · exact carries_deprecated (htracks _ .formerGetString) (htracks _ .getString)
  · exact carries_deprecated (htracks _ .formerListAdd) (htracks _ .listAdd)
  · exact carries_deprecated (htracks _ .ircNickColor) (htracks _ .nickColor)
  · exact carries_deprecated (htracks _ .ircNickColorName) (htracks _ .nickColorName)
  · exact carries_messageHits (htracks _ .modifier) (by decide)
  · exact carries_messageHits (htracks _ .signalOut) (by decide)
  · exact carries_messageHits (htracks _ .signalOuttags) (by decide)
  · exact carries_search (htracks _ .processUrl) f.hit_at
  · cases hname
  · cases hname
  · exact carries_search (htracks _ .site) f.hit_link
  · cases hname
  · cases hname

end Change

end ScriptAudit
