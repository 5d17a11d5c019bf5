import SnippetAudit.Catalog.Basic

/-!
The built-in tables. Findings come in the order of the tables, and of two languages with equally
many votes the earlier one is chosen.

Word, space and boundary classes are the ASCII ones: a letter beyond ASCII is never part of an
identifier.
-/

set_option autoImplicit false

namespace SnippetAudit.Catalog.Builtin

/-- Control-flow words and operators with their weights. -/
def complexity : List (String × Float) :=
  [("(?-u:\\b)if(?-u:\\b)", 1.0),
   ("(?-u:\\b)else[[:space:]]+if(?-u:\\b)", 1.0),
   ("(?-u:\\b)else(?-u:\\b)", 0.0),
   ("(?-u:\\b)while(?-u:\\b)", 1.0),
   ("(?-u:\\b)for(?-u:\\b)", 1.0),
   ("(?-u:\\b)foreach(?-u:\\b)", 1.0),
   ("(?-u:\\b)switch(?-u:\\b)", 1.0),
   ("(?-u:\\b)case(?-u:\\b)", 1.0),
   ("(?-u:\\b)catch(?-u:\\b)", 1.0),
   ("(?-u:\\b)\\?[[:space:]]*:", 1.0),
   ("\\|\\|", 0.5),
   ("&&", 0.5)]

/-- Constructions that let outside input reach a dangerous operation. -/
def security : List (String × List String) :=
  [("SQL Injection",
    ["\\$_GET\\[.*\\].*mysql_query", "\\$_POST\\[.*\\].*mysql_query",
     "\\$_REQUEST\\[.*\\].*mysql_query", "mysqli_query.*\\$_", "PDO.*prepare.*\\$_"]),
   ("XSS",
    ["echo[[:space:]]*\\$_GET", "echo[[:space:]]*\\$_POST", "echo[[:space:]]*\\$_REQUEST",
     "innerHTML[[:space:]]*=.*\\$_", "document\\.write.*\\$_"]),
   ("Path Traversal",
    ["include.*\\$_GET", "require.*\\$_GET", "fopen.*\\$_GET", "file_get_contents.*\\$_GET"]),
   ("Hardcoded Credentials",
    ["password[[:space:]]*=[[:space:]]*[\"'][^\"']+[\"']",
     "secret[[:space:]]*=[[:space:]]*[\"'][^\"']+[\"']",
     "api_key[[:space:]]*=[[:space:]]*[\"'][^\"']+[\"']",
     "token[[:space:]]*=[[:space:]]*[\"'][^\"']+[\"']"]),
   ("Eval Usage",
    ["eval[[:space:]]*\\(", "assert[[:space:]]*\\(", "create_function[[:space:]]*\\(",
     "preg_replace.*/e"])]

/-- Constructions that are likely to be slow. -/
def performance : List (String × List String) :=
  [("Nested Loops",
    ["for.*\\\x7b.*for.*\\\x7b", "while.*\\\x7b.*while.*\\\x7b", "for.*\\\x7b.*while.*\\\x7b"]),
   ("Inefficient String Operations",
    ["\\+[[:space:]]*\\+[[:space:]]*\\+", "str_replace.*/.*/.*/"]),
   ("Large Array Operations",
    ["array_map.*array_map", "array_filter.*array_filter"]),
   ("Blocking Operations",
    ["sleep\\(", "usleep\\(", "file_get_contents.*\\$"])]

/-- Function declarations that start with a keyword. -/
def keywordFunction : String :=
  "function[[:space:]]+([[:word:]]+)[[:space:]]*\\([^)]*\\)"

/-- Classes that no visibility word precedes. -/
def plainClass : String :=
  "class[[:space:]]+([[:word:]]+)"

/-- Classes that a visibility word may precede. -/
def visibleClass : String :=
  "(?:public|private|protected)?[[:space:]]*class[[:space:]]+([[:word:]]+)"

/-- Methods with a brace body, after optional modifiers and an optional type. -/
def braceMethod : String :=
  "(?:public|private|protected)?[[:space:]]*(?:static)?[[:space:]]*" ++
    "(?:[[:word:]]+[[:space:]]+)?([[:word:]]+)[[:space:]]*\\([^)]*\\)[[:space:]]*\\\x7b"

/-- Functions with a brace body, after optional modifiers and an optional type. -/
def braceFunction : String :=
  "(?:inline|virtual)?[[:space:]]*(?:[[:word:]]+[[:space:]]+)?" ++
    "([[:word:]]+)[[:space:]]*\\([^)]*\\)[[:space:]]*\\\x7b"

/-- Imports that take a quoted path in parentheses. -/
def calledImport (word : String) : String :=
  word ++ "[[:space:]]*\\(['\"]([^'\"]+)['\"]\\)"

/-- Imports that take the rest of the line. -/
def lineImport : String :=
  "import[[:space:]]+(.+)"

/-- The patterns that find names, by language. -/
def extraction : List (String × NamePatterns String) :=
  [("javascript",
    { functions :=
        [keywordFunction,
         "const[[:space:]]+([[:word:]]+)[[:space:]]*=[[:space:]]*\\([^)]*\\)[[:space:]]*=>",
         "var[[:space:]]+([[:word:]]+)[[:space:]]*=[[:space:]]*\\([^)]*\\)[[:space:]]*=>"]
      classes := [plainClass]
      imports :=
        ["import[[:space:]]+.*from[[:space:]]+['\"]([^'\"]+)['\"]",
         calledImport "require"] }),
   ("python",
    { functions := ["def[[:space:]]+([[:word:]]+)[[:space:]]*\\([^)]*\\)"]
      classes := [plainClass]
      imports := [lineImport, "from[[:space:]]+(.+)[[:space:]]+import"] }),
   ("php",
    { functions := [keywordFunction]
      classes := [plainClass]
      imports := [calledImport "require", calledImport "include"] }),
   ("java",
    { functions := [braceMethod]
      classes := [visibleClass]
      imports := [lineImport] }),
   ("cpp",
    { functions := [braceFunction]
      classes := [plainClass]
      imports :=
        ["#include[[:space:]]*<(.+)>", "#include[[:space:]]*\"([^\"]+)\""] }),
   ("csharp",
    { functions := [braceMethod]
      classes := [visibleClass]
      imports := ["using[[:space:]]+([[:word:].]+)[[:space:]]*;"] }),
   ("bash",
    { functions :=
        ["function[[:space:]]+([[:word:]]+)",
         "(?m)^[[:space:]]*([[:word:]]+)[[:space:]]*\\(\\)[[:space:]]*\\\x7b"]
      imports :=
        ["(?m)^[[:space:]]*(?:source|\\.)[[:space:]]+([^[:space:];]+)"] })]

/-- Keywords whose occurrences vote for a language. -/
def fingerprints : List (String × List String) :=
  [("php", ["<?php", "function", "class", "echo", "var_dump"]),
   ("javascript", ["function", "const", "let", "var", "console.log", "=>"]),
   ("python", ["def", "import", "print", "class", "if __name__"]),
   ("java", ["public class", "private", "public static void main", "System.out"]),
   ("cpp", ["#include", "int main", "cout", "cin", "std::"]),
   ("csharp", ["using System", "public class", "Console.WriteLine", "namespace"]),
   ("go", ["package main", "func main", "fmt.Println", "import"]),
   ("rust", ["fn main", "use std", "println!", "extern crate"]),
   ("ruby", ["def ", "require", "puts", "class", "module"]),
   ("html", ["<!DOCTYPE", "<html", "<div", "<script"]),
   ("css", ["\x7b", "\x7d", "margin:", "padding:", ".class", "#id"]),
   ("sql", ["SELECT", "FROM", "WHERE", "INSERT", "UPDATE", "DELETE"]),
   ("json", ["\x7b", "\x7d", "\"", ":", "[", "]"]),
   ("xml", ["<?xml", "<", "</", ">"]),
   ("yaml", ["---", ":", "- ", "key: value"]),
   ("bash", ["#!/bin/bash", "echo", "export", "function", "if ["])]

def tables : Tables where
  complexity := complexity
  security := security
  performance := performance
  extraction := extraction
  fingerprints := fingerprints

end SnippetAudit.Catalog.Builtin

namespace SnippetAudit.Catalog

/-- The catalog that was read, or the one without entries. -/
def orNothing : Except BadPattern Catalog → Catalog
  | .ok catalog => catalog
  | .error _ => .nothing

/-- The catalog of the built-in tables. All their texts are patterns, so nothing is left out. -/
def builtin : Catalog :=
  orNothing (ofTables Builtin.tables)

end SnippetAudit.Catalog
