import DomTemplate.Text.Replace

/-! The form of a text that may stand in markup and inside a quoted attribute. -/

namespace DomTemplate.Markup

def escapeRules : List Rule :=
  [.ofStrings "&" "&amp;", .ofStrings "'" "&#39;", .ofStrings "<" "&lt;",
   .ofStrings ">" "&gt;", .ofStrings "\"" "&#34;"]

def escape (s : Bytes) : Bytes := Rule.applyAll escapeRules s

end DomTemplate.Markup
