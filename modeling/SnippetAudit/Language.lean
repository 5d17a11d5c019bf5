import SnippetAudit.Path
import SnippetAudit.Text.Blank

/-!
Languages by name: what a hint and what a file extension stand for.
-/

set_option autoImplicit false

namespace SnippetAudit.Language

/-- Other names of the languages that a catalog knows. -/
def aliases : List (String × String) :=
  [("js", "javascript"), ("node", "javascript"), ("typescript", "javascript"),
   ("ts", "javascript"), ("py", "python"), ("python3", "python"), ("c++", "cpp"), ("c", "cpp"),
   ("cxx", "cpp"), ("c#", "csharp"), ("cs", "csharp"), ("sh", "bash"), ("shell", "bash"),
   ("zsh", "bash"), ("kotlin", "java")]

/-- The language that a hint names: trimmed, in lower case, aliases resolved. Any other name stands
for itself. -/
def ofHint (hint : String) : String :=
  let key := String.ofList (Text.asciiLower (Text.trim hint.toList))
  (aliases.lookup key).getD key

/-- The languages of file extensions. -/
def extensions : List (String × String) :=
  [("js", "javascript"), ("jsx", "javascript"), ("mjs", "javascript"), ("cjs", "javascript"),
   ("ts", "javascript"), ("tsx", "javascript"), ("py", "python"), ("pyw", "python"),
   ("php", "php"), ("phtml", "php"), ("java", "java"), ("kt", "java"), ("c", "cpp"), ("h", "cpp"),
   ("cc", "cpp"), ("cpp", "cpp"), ("cxx", "cpp"), ("hpp", "cpp"), ("hh", "cpp"),
   ("cs", "csharp"), ("sh", "bash"), ("bash", "bash"), ("zsh", "bash"), ("go", "go"),
   ("rs", "rust"), ("rb", "ruby"), ("html", "html"), ("htm", "html"), ("css", "css"),
   ("sql", "sql"), ("json", "json"), ("xml", "xml"), ("yml", "yaml"), ("yaml", "yaml")]

/-- The language of a file extension, if it is a known one. Case is ignored. -/
def ofExtension? (extension : String) : Option String :=
  extensions.lookup (String.ofList (Text.asciiLower extension.toList))

/-- The language that a path's extension stands for, if that is text. -/
def ofPath? (path : List UInt8) : Option String := do
  let label ← Path.fileName? path
  let extension ← Path.extension? label
  let text ← Text.Utf8.decode? extension
  ofExtension? (String.ofList text)

end SnippetAudit.Language
